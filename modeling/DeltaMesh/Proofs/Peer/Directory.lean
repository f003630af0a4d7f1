import DeltaMesh.Peer.Directory
import Mathlib.Data.List.Nodup

/-!
# Who is how close

Nodes that know the same members agree on who is how close to a location: the `rank` of a node is
the number of nodes that are closer. The owner is the node of rank zero
(`Directory.Lists.owner_id_eq_iff`), and the replicas that it names are the nodes that come after it
(`Directory.Lists.replicas_of_owner`). Who owns a location depends on which ids are listed only, not
on the order or the addresses (`Directory.SameMembers.owner_id`).
-/

namespace DeltaMesh

/-- `a` is closer to the location than `b`. -/
def Id.closer (location a b : Id) : Bool :=
  (compare (a.distance location) (b.distance location)).isLT

namespace Id

variable {location a b c : Id}

theorem closer_irrefl (location a : Id) : closer location a a = false := by
  rw [closer, Std.ReflOrd.compare_self]
  rfl

theorem not_closer_of_closer (h : closer location a b = true) : closer location b a = false := by
  rw [closer, Ordering.isLT_iff_eq_lt] at h
  rw [closer, Std.OrientedOrd.eq_swap (a := b.distance location), h]
  rfl

/-- Of two different ids one is closer. -/
theorem closer_of_isLE (h : (compare (a.distance location) (b.distance location)).isLE = true)
    (hne : a ≠ b) : closer location a b = true := by
  rw [closer]
  cases hcmp : compare (a.distance location) (b.distance location) with
  | lt => rfl
  | eq => exact absurd (distance_left_inj.mp (Std.LawfulEqOrd.eq_of_compare hcmp)) hne
  | gt => rw [hcmp] at h; cases h

end Id

/-- In a list that is strictly sorted the first `k` members are those that fewer than `k` members
come before. -/
theorem mem_take_iff_countP {α : Type} (before : α → α → Bool) {l : List α}
    (hirrefl : ∀ a, before a a = false)
    (hsorted : l.Pairwise fun a b => before a b = true ∧ before b a = false) {a : α} (ha : a ∈ l)
    (k : Nat) : a ∈ l.take k ↔ l.countP (before · a) < k := by
  induction l generalizing k with
  | nil => cases ha
  | cons b l ih =>
    obtain ⟨hb, hl⟩ := List.pairwise_cons.mp hsorted
    cases k with
    | zero => simp
    | succ k =>
      rw [List.take_succ_cons, List.mem_cons, List.countP_cons]
      by_cases hab : a = b
      · subst hab
        have hnone : l.countP (before · a) = 0 :=
          List.countP_eq_zero.mpr fun c hc => by simp [(hb c hc).2]
        simp [hnone, hirrefl]
      · have ha' : a ∈ l := (List.mem_cons.mp ha).resolve_left hab
        rw [or_iff_right hab, ih hl ha', (hb a ha').1, if_pos rfl]
        omega

variable {n : Nat}

/-- How many of the nodes with these ids are closer to a location than node `i`. -/
def rank (ids : Fin n → Id) (location : Id) (i : Fin n) : Nat :=
  (List.finRange n).countP fun j => Id.closer location (ids j) (ids i)

namespace Directory

/-- This is the directory of node `i` among the nodes with these ids. -/
structure Lists (d : Directory) (ids : Fin n → Id) (i : Fin n) : Prop where
  self : d.self.id = ids i
  entered : ∀ (id : Id) (p : Peer), d.others[id]? = some p → p.id = id
  members : ∀ id, id ∈ d.others ↔ ∃ j, j ≠ i ∧ ids j = id

variable {d : Directory} {ids : Fin n → Id} {i j : Fin n}

theorem values_eq_map_snd {α β : Type} {cmp : α → α → Ordering} [Std.TransCmp cmp]
    (t : Std.ExtTreeMap α β cmp) : t.values = t.toList.map Prod.snd := by
  obtain ⟨t⟩ := t
  induction t with
  | mk t =>
    show t.inner.values = (Std.DTreeMap.Internal.Impl.Const.toList t.inner).map Prod.snd
    rw [Std.DTreeMap.Internal.Impl.values_eq_map_snd,
      Std.DTreeMap.Internal.Impl.Const.toList_eq_toListModel_map, List.map_map]
    rfl

/-- The ids of the other members are those that they are entered under. -/
theorem map_id_peers (hentered : ∀ (id : Id) (p : Peer), d.others[id]? = some p → p.id = id) :
    d.peers.map Peer.id = d.others.keys := by
  rw [peers, values_eq_map_snd, List.map_map, ← Std.ExtTreeMap.map_fst_toList_eq_keys]
  refine List.map_congr_left fun p hp => ?_
  exact hentered _ _ (Std.ExtTreeMap.mem_toList_iff_getElem?_eq_some.mp hp)

theorem Lists.map_id_peers (h : d.Lists ids i) : d.peers.map Peer.id = d.others.keys :=
  Directory.map_id_peers h.entered

/-- The members that a node lists, itself included, are all the nodes of the cluster. -/
theorem Lists.members_perm (h : d.Lists ids i) (hids : Function.Injective ids) :
    (d.members.map Peer.id).Perm ((List.finRange n).map ids) := by
  have hmembers : d.members.map Peer.id = d.others.keys ++ [ids i] := by
    rw [Directory.members, List.map_append, h.map_id_peers, List.map_singleton, h.self]
  have hnodup : (d.others.keys ++ [ids i]).Nodup := by
    refine List.Nodup.append Std.ExtTreeMap.nodup_keys (List.nodup_singleton _) ?_
    rw [List.disjoint_singleton, Std.ExtTreeMap.mem_keys, h.members]
    rintro ⟨j, hj, heq⟩
    exact hj (hids heq)
  rw [hmembers]
  refine (List.perm_ext_iff_of_nodup hnodup ((List.nodup_finRange n).map hids)).mpr fun id => ?_
  rw [List.mem_append, List.mem_singleton, Std.ExtTreeMap.mem_keys, h.members, List.mem_map]
  constructor
  · rintro (⟨j, -, rfl⟩ | rfl)
    · exact ⟨j, List.mem_finRange j, rfl⟩
    · exact ⟨i, List.mem_finRange i, rfl⟩
  · rintro ⟨j, -, rfl⟩
    by_cases hj : j = i
    · exact .inr (hj ▸ rfl)
    · exact .inl ⟨j, hj, rfl⟩

theorem Lists.size (h : d.Lists ids i) (hids : Function.Injective ids) : d.size = n := by
  have hlength := (h.members_perm hids).length_eq
  rw [List.length_map, List.length_map, List.length_finRange, Directory.members,
    List.length_append, ← List.length_map (f := Peer.id), h.map_id_peers,
    Std.ExtTreeMap.length_keys] at hlength
  exact hlength

theorem ranked_perm (d : Directory) (location : Id) : (d.ranked location).Perm d.members :=
  List.mergeSort_perm ..

theorem Lists.ranked_perm (h : d.Lists ids i) (hids : Function.Injective ids) (location : Id) :
    ((d.ranked location).map Peer.id).Perm ((List.finRange n).map ids) :=
  ((d.ranked_perm location).map Peer.id).trans (h.members_perm hids)

theorem Lists.ranked_nodup (h : d.Lists ids i) (hids : Function.Injective ids) (location : Id) :
    ((d.ranked location).map Peer.id).Nodup :=
  (h.ranked_perm hids location).nodup_iff.mpr ((List.nodup_finRange n).map hids)

/-- The members are sorted by their distances. -/
theorem pairwise_ranked (d : Directory) (location : Id) : (d.ranked location).Pairwise fun p q =>
    (compare (p.id.distance location) (q.id.distance location)).isLE = true :=
  List.pairwise_mergeSort (fun p q r => Std.TransCmp.isLE_trans)
    (fun p q => by
      rw [Bool.or_eq_true, Std.OrientedOrd.eq_swap (a := q.id.distance location)]
      cases compare (p.id.distance location) (q.id.distance location) <;> decide) _

/-- Nodes with different ids are strictly sorted. -/
theorem Lists.ranked_sorted (h : d.Lists ids i) (hids : Function.Injective ids) (location : Id) :
    (d.ranked location).Pairwise fun p q =>
      Id.closer location p.id q.id = true ∧ Id.closer location q.id p.id = false := by
  have hnodup := h.ranked_nodup hids location
  refine ((d.pairwise_ranked location).and (List.pairwise_map.mp hnodup)).imp fun ⟨hle, hne⟩ => ?_
  have hcloser := Id.closer_of_isLE hle hne
  exact ⟨hcloser, Id.not_closer_of_closer hcloser⟩

/-- The first `k` members are those of a rank less than `k`: a rank counts the nodes that are
closer. -/
theorem Lists.mem_take_ranked (h : d.Lists ids i) (hids : Function.Injective ids) {location : Id}
    {p : Peer} (hp : p ∈ d.ranked location) (hid : p.id = ids j) (k : Nat) :
    p ∈ (d.ranked location).take k ↔ rank ids location j < k := by
  have hcount : (d.ranked location).countP (fun q => Id.closer location q.id p.id) =
      rank ids location j := by
    have hperm := (h.ranked_perm hids location).countP_eq (Id.closer location · p.id)
    rw [List.countP_map, List.countP_map, hid] at hperm
    rw [hid]
    exact hperm
  rw [mem_take_iff_countP (fun p q : Peer => Id.closer location p.id q.id)
    (fun p => Id.closer_irrefl location p.id) (h.ranked_sorted hids location) hp, hcount]

/-- Every node is a member. -/
theorem Lists.exists_ranked (h : d.Lists ids i) (hids : Function.Injective ids) (location : Id)
    (j : Fin n) : ∃ p ∈ d.ranked location, p.id = ids j := by
  have hmem : ids j ∈ (d.ranked location).map Peer.id :=
    (h.ranked_perm hids location).mem_iff.mpr (List.mem_map_of_mem (List.mem_finRange j))
  exact List.mem_map.mp hmem

/-- Every member is a node. -/
theorem Lists.exists_node (h : d.Lists ids i) (hids : Function.Injective ids) {location : Id}
    {p : Peer} (hp : p ∈ d.ranked location) : ∃ j, p.id = ids j := by
  have hmem : p.id ∈ (List.finRange n).map ids :=
    (h.ranked_perm hids location).mem_iff.mp (List.mem_map_of_mem hp)
  obtain ⟨j, -, hj⟩ := List.mem_map.mp hmem
  exact ⟨j, hj.symm⟩

/-- Every node knows who owns a location: the owner is the node of rank zero, to which no node is
closer. -/
theorem Lists.owner_id_eq_iff (h : d.Lists ids i) (hids : Function.Injective ids) (location : Id)
    (j : Fin n) : (d.owner location).id = ids j ↔ rank ids location j = 0 := by
  obtain ⟨p, hp, hid⟩ := h.exists_ranked hids location j
  have htake := h.mem_take_ranked hids hp hid 1
  rw [Nat.lt_one_iff] at htake
  have hnodup := h.ranked_nodup hids location
  rw [← htake, Directory.owner, closest]
  cases hranked : d.ranked location with
  | nil => rw [hranked] at hp; cases hp
  | cons first rest =>
    rw [hranked] at hp hnodup
    rw [List.take_succ_cons, List.take_zero, List.headD_cons, List.mem_singleton, ← hid]
    refine ⟨fun heq => ?_, fun heq => heq ▸ rfl⟩
    rcases List.mem_cons.mp hp with rfl | hp
    · rfl
    · exact absurd (heq ▸ List.mem_map_of_mem hp) (List.nodup_cons.mp hnodup).1

/-- Every one of these members is a node. -/
theorem exists_paired {peers : List Peer} (h : ∀ p ∈ peers, ∃ j, p.id = ids j) :
    ∃ targets : List (Peer × Fin n), targets.map Prod.fst = peers ∧
      ∀ target ∈ targets, target.1.id = ids target.2 := by
  induction peers with
  | nil => exact ⟨[], rfl, fun _ h => nomatch h⟩
  | cons p peers ih =>
    obtain ⟨j, hj⟩ := h p List.mem_cons_self
    obtain ⟨targets, rfl, htargets⟩ := ih fun p hp => h p (List.mem_cons_of_mem _ hp)
    exact ⟨(p, j) :: targets, rfl, List.forall_mem_cons.mpr ⟨hj, htargets⟩⟩

/-- Members with the nodes that they are. -/
theorem exists_nodes (hids : Function.Injective ids) {peers : List Peer}
    (h : ∀ p ∈ peers, ∃ j, p.id = ids j) (hnodup : (peers.map Peer.id).Nodup) :
    ∃ targets : List (Peer × Fin n), targets.map Prod.fst = peers ∧
      (∀ target ∈ targets, target.1.id = ids target.2) ∧ (targets.map Prod.snd).Nodup ∧
      ∀ q, q ∈ targets.map Prod.snd ↔ ∃ p ∈ peers, p.id = ids q := by
  obtain ⟨targets, rfl, htargets⟩ := exists_paired h
  have hids' : (targets.map Prod.snd).map ids = (targets.map Prod.fst).map Peer.id := by
    rw [List.map_map, List.map_map]
    exact List.map_congr_left fun target htarget => (htargets target htarget).symm
  refine ⟨targets, rfl, htargets, List.Nodup.of_map ids (hids' ▸ hnodup), fun q => ?_⟩
  constructor
  · intro hq
    obtain ⟨target, htarget, rfl⟩ := List.mem_map.mp hq
    exact ⟨target.1, List.mem_map_of_mem htarget, htargets target htarget⟩
  · rintro ⟨p, hp, hid⟩
    obtain ⟨target, htarget, rfl⟩ := List.mem_map.mp hp
    exact List.mem_map.mpr ⟨target, htarget, hids ((htargets target htarget).symm.trans hid)⟩

/-! ### Owners -/

/-- The owner is a member, and no member with another id is as close. Nothing is assumed of the
directory; a node without peers owns everything. -/
theorem owner_closest (d : Directory) (location : Id) : d.owner location ∈ d.members ∧
    ∀ p ∈ d.members, p.id ≠ (d.owner location).id →
      Id.closer location (d.owner location).id p.id = true := by
  have hperm := d.ranked_perm location
  have hsorted := d.pairwise_ranked location
  rw [owner, closest]
  cases hranked : d.ranked location with
  | nil =>
    have hself : d.self ∈ d.ranked location :=
      hperm.mem_iff.mpr (List.mem_append_right _ (List.mem_singleton_self _))
    rw [hranked] at hself
    cases hself
  | cons first rest =>
    rw [hranked] at hperm hsorted
    rw [List.take_succ_cons, List.take_zero, List.headD_cons]
    refine ⟨hperm.mem_iff.mp List.mem_cons_self, fun p hp hne => ?_⟩
    have hrest : p ∈ rest := by
      refine (List.mem_cons.mp (hperm.mem_iff.mpr hp)).resolve_left fun heq => ?_
      exact hne (congrArg Peer.id heq)
    exact Id.closer_of_isLE ((List.pairwise_cons.mp hsorted).1 p hrest) hne.symm

/-- The same ids are members. -/
def SameMembers (d d' : Directory) : Prop :=
  ∀ id, id ∈ d.members.map Peer.id ↔ id ∈ d'.members.map Peer.id

theorem Lists.sameMembers {d' : Directory} (h : d.Lists ids i) (h' : d'.Lists ids j)
    (hids : Function.Injective ids) : d.SameMembers d' := fun _ =>
  ((h.members_perm hids).trans (h'.members_perm hids).symm).mem_iff

/-- Directories with the same members agree on who owns a location. -/
theorem SameMembers.owner_id {d' : Directory} (h : d.SameMembers d') (location : Id) :
    (d.owner location).id = (d'.owner location).id := by
  obtain ⟨hmem, hclosest⟩ := d.owner_closest location
  obtain ⟨hmem', hclosest'⟩ := d'.owner_closest location
  obtain ⟨p, hp, hid⟩ := List.mem_map.mp ((h _).mpr (List.mem_map_of_mem hmem'))
  obtain ⟨p', hp', hid'⟩ := List.mem_map.mp ((h _).mp (List.mem_map_of_mem hmem))
  by_contra hne
  have hcloser := hclosest p hp fun heq => hne (heq.symm.trans hid)
  have hcloser' := hclosest' p' hp' fun heq => hne (hid'.symm.trans heq)
  rw [hid] at hcloser
  rw [hid', Id.not_closer_of_closer hcloser] at hcloser'
  cases hcloser'

/-! ### Replicas -/

variable {location : Id} {first : Peer} {rest : List Peer}

/-- The owner comes first itself in its own ranking, since it counts among the members. -/
theorem Lists.exists_rest (h : d.Lists ids i) (hids : Function.Injective ids)
    (howner : rank ids location i = 0) :
    ∃ first rest, d.ranked location = first :: rest ∧ first.id = ids i := by
  obtain ⟨self, hself, hid⟩ := h.exists_ranked hids location i
  have htake := (h.mem_take_ranked hids hself hid 1).mpr (by omega)
  cases hranked : d.ranked location with
  | nil => rw [hranked] at hself; cases hself
  | cons first rest =>
    rw [hranked, List.take_succ_cons, List.take_zero, List.mem_singleton] at htake
    exact ⟨first, rest, rfl, htake ▸ hid⟩

/-- The one member more that is asked for makes up for the owner itself. -/
theorem Lists.replicas_eq_take (h : d.Lists ids i) (hids : Function.Injective ids)
    (hranked : d.ranked location = first :: rest) (hfirst : first.id = ids i) {factor : Nat}
    (hfactor : factor + 1 < UInt64.size) : d.replicas location factor = rest.take factor := by
  have hnodup := h.ranked_nodup hids location
  rw [hranked, List.map_cons, List.nodup_cons] at hnodup
  have hself : first.id = d.self.id := hfirst.trans h.self.symm
  have hkept : ∀ p ∈ rest.take factor, decide (p.id ≠ d.self.id) = true := fun p hp =>
    decide_eq_true fun heq =>
      hnodup.1 (hself ▸ heq ▸ List.mem_map_of_mem (List.mem_of_mem_take hp))
  have hcount : (factor + 1) % 0x10000000000000000 = factor + 1 := Nat.mod_eq_of_lt hfactor
  rw [replicas, closest, hcount, hranked, List.take_succ_cons,
    List.filter_cons_of_neg (by simp [hself]), List.filter_eq_self.mpr hkept, List.take_take,
    Nat.min_self]

/-- The members after the first one, by rank. Those taken are the nodes of rank one up to the
factor. -/
theorem Lists.mem_take_rest (h : d.Lists ids i) (hids : Function.Injective ids)
    (hranked : d.ranked location = first :: rest) (factor : Nat) (q : Fin n) :
    (∃ p ∈ rest.take factor, p.id = ids q) ↔
      1 ≤ rank ids location q ∧ rank ids location q ≤ factor := by
  obtain ⟨p, hp, hid⟩ := h.exists_ranked hids location q
  have hfirst := h.mem_take_ranked hids hp hid 1
  have htake := h.mem_take_ranked hids hp hid (factor + 1)
  have hnodup := h.ranked_nodup hids location
  rw [hranked, List.map_cons, List.nodup_cons] at hnodup
  rw [hranked, List.take_succ_cons, List.take_zero, List.mem_singleton] at hfirst
  rw [hranked, List.take_succ_cons, List.mem_cons] at htake
  constructor
  · rintro ⟨p', hp', hid'⟩
    have hne : p ≠ first := fun heq => by
      refine hnodup.1 ?_
      rw [← heq, hid, ← hid']
      exact List.mem_map_of_mem (List.mem_of_mem_take hp')
    have hpos := mt hfirst.mpr hne
    have hmem : p ∈ rest.take factor := by
      have hall := h.ranked_nodup hids location
      rw [hranked] at hall hp
      exact List.inj_on_of_nodup_map hall hp (List.mem_cons_of_mem _ (List.mem_of_mem_take hp'))
        (hid.trans hid'.symm) ▸ hp'
    have hlt := htake.mp (.inr hmem)
    omega
  · rintro ⟨hpos, hle⟩
    have hne : p ≠ first := fun heq => by
      have := hfirst.mp heq
      omega
    exact ⟨p, (htake.mpr (by omega)).resolve_left hne, hid⟩

/-- The owner asks the nodes that are the closest ones after it. The bound on the factor is there
because one is added to it, in a word, to leave room for the owner itself. -/
theorem Lists.replicas_of_owner (h : d.Lists ids i) (hids : Function.Injective ids)
    (howner : rank ids location i = 0) {factor : Nat} (hfactor : factor + 1 < UInt64.size) :
    ∃ targets : List (Peer × Fin n), d.replicas location factor = targets.map Prod.fst ∧
      (∀ target ∈ targets, target.1.id = ids target.2) ∧ (targets.map Prod.snd).Nodup ∧
      ∀ q, q ∈ targets.map Prod.snd ↔ 1 ≤ rank ids location q ∧ rank ids location q ≤ factor := by
  obtain ⟨first, rest, hranked, hfirst⟩ := h.exists_rest hids howner
  have hrest : ∀ p ∈ rest.take factor, p ∈ d.ranked location := fun p hp =>
    hranked ▸ List.mem_cons_of_mem _ (List.mem_of_mem_take hp)
  have hnodup : ((rest.take factor).map Peer.id).Nodup := by
    have hall := h.ranked_nodup hids location
    rw [hranked, List.map_cons, List.nodup_cons] at hall
    rw [List.map_take]
    exact hall.2.sublist (List.take_sublist _ _)
  obtain ⟨targets, hpeers, htargets, hdistinct, hmem⟩ :=
    exists_nodes hids (fun p hp => h.exists_node hids (hrest p hp)) hnodup
  refine ⟨targets, (h.replicas_eq_take hids hranked hfirst hfactor).trans hpeers.symm, htargets,
    hdistinct, fun q => (hmem q).trans (h.mem_take_rest hids hranked factor q)⟩

end Directory

/-! ### Changes of the membership -/

/-- What a node hears about who is in the cluster. -/
inductive MembershipChange
  | joined (p : Peer)
  | left (id : Id)

/-- The members after a change. -/
def Directory.learn (d : Directory) : MembershipChange → Directory
  | .joined p => (d.add p).2
  | .left id => (d.remove id).2

/-! ### Two nodes -/

/-- One of two nodes. -/
def Peer.numbered (i : Fin 2) : Peer := ⟨.ofNat (i + 1), .v4 [127, 0, 0, 1] (.ofNat (7001 + i))⟩

/-- Two nodes that know each other know the same members. -/
theorem Directory.lists_pair {i j : Fin 2} (h : i ≠ j) :
    (Directory.ofPeers (.numbered i) [.numbered j]).Lists (fun i => (Peer.numbered i).id) i := by
  have hne : (Peer.numbered j).id ≠ (Peer.numbered i).id := by
    revert i j
    decide
  have hothers : (Directory.ofPeers (.numbered i) [.numbered j]).others =
      (∅ : Std.ExtTreeMap Id Peer compare).insert (Peer.numbered j).id (.numbered j) := by
    rw [Directory.ofPeers, List.foldl_cons, Directory.add, Directory.alone, if_neg hne]
    rfl
  refine ⟨?_, fun id p hp => ?_, fun id => ?_⟩
  · rw [Directory.ofPeers, List.foldl_cons, Directory.add, Directory.alone, if_neg hne]
    rfl
  · rw [hothers, Std.ExtTreeMap.getElem?_insert] at hp
    split at hp
    case isTrue heq => exact Option.some.inj hp ▸ Std.LawfulEqOrd.eq_of_compare heq
    case isFalse => cases hp
  · have hother : ∀ l, l ≠ i ↔ l = j := by
      revert i j
      decide
    rw [hothers, Std.ExtTreeMap.mem_insert, Std.LawfulEqOrd.compare_eq_iff_eq,
      or_iff_left Std.ExtTreeMap.not_mem_empty]
    simp only [hother, exists_eq_left]

end DeltaMesh
