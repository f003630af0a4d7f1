import DeltaMesh.Proofs.Responsibility.Agreement

/-!
# The replicas are the nearest other nodes

Replicas are picked among one member more than wanted, in case the node itself is one of them. As a
directory lists the node itself once, that is enough wherever the node ranks
(`Directory.Sound.replicas_eq_take`): the replicas are the first ones of the other members, sorted
by their distances, of which no two are equal. A new peer takes one place in that row and leaves the
order of the others as it is (`Directory.Sound.remotes_add`).

Main statement: `Directory.replicas_nearest`.
-/

namespace DeltaMesh

/-- Of a list in which one entry at most fails a test, one entry more than wanted is enough to find
the first ones that pass it. -/
theorem take_filter_take_succ {α : Type} {p : α → Bool} {l : List α}
    (h : l.countP (fun a => !p a) ≤ 1) (count : Nat) :
    ((l.take (count + 1)).filter p).take count = (l.filter p).take count := by
  by_cases hlong : count + 1 ≤ l.length
  · have hfailing : (l.take (count + 1)).countP (fun a => !p a) ≤ 1 :=
      Nat.le_trans (List.Sublist.countP_le (List.take_sublist _ _)) h
    have hpassing : count ≤ ((l.take (count + 1)).filter p).length := by
      have hlength := List.length_eq_countP_add_countP p (l := l.take (count + 1))
      simp only [List.length_take, Bool.not_eq_true, Bool.decide_eq_false] at hlength
      rw [← List.countP_eq_length_filter]
      omega
    calc ((l.take (count + 1)).filter p).take count
      _ = ((l.take (count + 1)).filter p ++ (l.drop (count + 1)).filter p).take count :=
        (List.take_append_of_le_length hpassing).symm
      _ = (l.filter p).take count := by rw [← List.filter_append, List.take_append_drop]
  · have hall : l.take (count + 1) = l := List.take_of_length_le (by omega)
    rw [hall]

/-- How the entries that are picked change when `a` is new. -/
inductive Joined {α : Type} (a : α) (picked : List α) : List α → Prop
  /-- It is not picked. -/
  | left : Joined a picked picked
  /-- It is picked too. -/
  | entered {front back : List α} (h : picked = front ++ back) :
    Joined a picked (front ++ a :: back)
  /-- It is picked in place of the last entry. -/
  | displaced {front back : List α} {last : α} (h : picked = front ++ back ++ [last]) :
    Joined a picked (front ++ a :: back)

/-- Of a list that somebody joins, the first `count` members stay except perhaps for the last of
them. -/
theorem joined_take {α : Type} (a : α) (front back : List α) (count : Nat) :
    Joined a ((front ++ back).take count) ((front ++ a :: back).take count) := by
  by_cases hfront : count ≤ front.length
  · rw [List.take_append_of_le_length hfront, List.take_append_of_le_length hfront]
    exact .left
  · obtain ⟨behind, rfl⟩ : ∃ behind, count = front.length + (behind + 1) :=
      ⟨count - front.length - 1, by omega⟩
    rw [List.take_length_add_append, List.take_length_add_append, List.take_succ_cons]
    by_cases hback : behind < back.length
    · have hlast : front ++ back.take (behind + 1) =
          front ++ back.take behind ++ [back[behind]] := by
        rw [List.append_assoc, List.take_append_getElem hback]
      exact .displaced hlast
    · rw [List.take_of_length_le (by omega), List.take_of_length_le (by omega)]
      exact .entered rfl

namespace Directory

variable {d : Directory} {location : Id}

/-! ### What holds of every directory -/

/-- Each peer is entered under its own id, and the node itself is not entered. -/
structure Sound (d : Directory) : Prop where
  entered : ∀ (id : Id) (p : Peer), d.others[id]? = some p → p.id = id
  apart : d.self.id ∉ d.others

theorem sound_alone (self : Peer) : (alone self).Sound where
  entered := (wellEntered_alone self).entered
  apart := Std.ExtTreeMap.not_mem_empty

/-- Every change of membership keeps a directory sound. A peer that announces the node's own id is
not entered. -/
theorem Sound.learn (h : d.Sound) (change : MembershipChange) : (d.learn change).Sound where
  entered := (WellEntered.learn ⟨rfl, h.entered⟩ change).entered
  apart := by
    cases change with
    | joined p =>
      rw [Directory.learn, add]
      split
      case isTrue => exact h.apart
      case isFalse hne =>
        rw [Std.ExtTreeMap.mem_insert, Std.LawfulEqOrd.compare_eq_iff_eq]
        exact fun hmem => hmem.elim hne h.apart
    | left id => exact fun hmem => h.apart (Std.ExtTreeMap.mem_of_mem_erase hmem)

/-- Every directory that a node can come to is sound. -/
theorem sound_foldl_learn (self : Peer) (changes : List MembershipChange) :
    (changes.foldl learn (alone self)).Sound := by
  suffices h : ∀ d : Directory, d.Sound → (changes.foldl learn d).Sound from h _ (sound_alone self)
  induction changes with
  | nil => exact fun d hd => hd
  | cons change changes ih => exact fun d hd => ih _ (hd.learn change)

namespace Sound

/-- The peers are the members entered under their own ids; the node itself is not among them. -/
theorem mem_peers (h : d.Sound) {p : Peer} : p ∈ d.peers ↔ d.others[p.id]? = some p := by
  rw [peers, values_eq_map_snd, List.mem_map]
  constructor
  · rintro ⟨⟨id, p⟩, hp, rfl⟩
    have hentry := Std.ExtTreeMap.mem_toList_iff_getElem?_eq_some.mp hp
    obtain rfl := h.entered id p hentry
    exact hentry
  · intro hp
    exact ⟨(p.id, p), Std.ExtTreeMap.mem_toList_iff_getElem?_eq_some.mpr hp, rfl⟩

theorem nodup_peers (h : d.Sound) : (d.peers.map Peer.id).Nodup := by
  rw [map_id_peers h.entered]
  exact Std.ExtTreeMap.nodup_keys

theorem id_ne_self (h : d.Sound) {p : Peer} (hp : p ∈ d.peers) : p.id ≠ d.self.id := by
  intro heq
  refine h.apart ?_
  rw [Std.ExtTreeMap.mem_iff_isSome_getElem?, ← heq, h.mem_peers.mp hp]
  rfl

end Sound

/-! ### The other members in order -/

/-- The other members from the closest to the farthest. -/
def remotes (d : Directory) (location : Id) : List Peer :=
  (d.ranked location).filter fun p => p.id ≠ d.self.id

namespace Sound

theorem remotes_perm (h : d.Sound) (location : Id) : (d.remotes location).Perm d.peers := by
  have hpeers : d.members.filter (fun p => p.id ≠ d.self.id) = d.peers := by
    rw [members, List.filter_append, List.filter_cons_of_neg (by simp), List.filter_nil,
      List.append_nil]
    exact List.filter_eq_self.mpr fun p hp => decide_eq_true (h.id_ne_self hp)
  exact hpeers ▸ (d.ranked_perm location).filter _

theorem nodup_remotes (h : d.Sound) (location : Id) :
    ((d.remotes location).map Peer.id).Nodup :=
  ((h.remotes_perm location).map Peer.id).nodup_iff.mpr h.nodup_peers

/-- No two of the other members are equally far. -/
theorem ascending_remotes (h : d.Sound) (location : Id) :
    (d.remotes location).Pairwise fun p q => Id.closer location p.id q.id = true := by
  have hsorted := (d.pairwise_ranked location).filter fun p => p.id ≠ d.self.id
  refine (hsorted.and (List.pairwise_map.mp (h.nodup_remotes location))).imp ?_
  rintro p q ⟨hle, hne⟩
  exact Id.closer_of_isLE hle hne

/-- There is one way only to list peers in that order. -/
theorem remotes_unique (h : d.Sound) {row : List Peer} (hperm : row.Perm d.peers)
    (hrow : row.Pairwise fun p q => Id.closer location p.id q.id = true) :
    row = d.remotes location := by
  refine List.Perm.eq_of_pairwise (fun p q _ _ hpq hqp => ?_) hrow (h.ascending_remotes location)
    (hperm.trans (h.remotes_perm location).symm)
  rw [Id.not_closer_of_closer hpq] at hqp
  cases hqp

/-- Wherever the node itself ranks, its replicas are the first ones of the others. -/
theorem replicas_eq_take (h : d.Sound) (location : Id) {factor : Nat}
    (hfactor : factor + 1 < UInt64.size) :
    d.replicas location factor = (d.remotes location).take factor := by
  have hself : (d.ranked location).countP (fun p => !decide (p.id ≠ d.self.id)) ≤ 1 := by
    have hothers : d.peers.countP (fun p => !decide (p.id ≠ d.self.id)) = 0 :=
      List.countP_eq_zero.mpr fun p hp => by simp [h.id_ne_self hp]
    rw [(d.ranked_perm location).countP_eq, members, List.countP_append, hothers]
    simp
  have hcount : (factor + 1) % 0x10000000000000000 = factor + 1 := Nat.mod_eq_of_lt hfactor
  rw [replicas, closest, hcount]
  exact take_filter_take_succ hself factor

/-! ### A new peer -/

/-- A peer is new if and only if its id was unknown, and is then entered. -/
theorem add_eq {p : Peer} (hnew : (d.add p).1 = true) :
    p.id ∉ d.others ∧ (d.add p).2 = { d with others := d.others.insert p.id p } := by
  rw [add] at hnew ⊢
  split at hnew
  case isTrue => cases hnew
  case isFalse hne =>
    rw [if_neg hne]
    refine ⟨fun hmem => ?_, rfl⟩
    rw [Std.ExtTreeMap.contains_iff_mem.mpr hmem] at hnew
    cases hnew

/-- A new peer is one more; the others stay. -/
theorem peers_add_perm (h : d.Sound) {p : Peer} (hnew : (d.add p).1 = true) :
    (d.add p).2.peers.Perm (p :: d.peers) := by
  obtain ⟨hfresh, hadd⟩ := add_eq hnew
  have h' : (d.add p).2.Sound := h.learn (.joined p)
  have hnone : d.others[p.id]? = none := Std.ExtTreeMap.getElem?_eq_none hfresh
  have hnot : p ∉ d.peers := fun hp => by
    rw [h.mem_peers, hnone] at hp
    cases hp
  refine (List.perm_ext_iff_of_nodup (.of_map _ h'.nodup_peers)
    (List.nodup_cons.mpr ⟨hnot, .of_map _ h.nodup_peers⟩)).mpr fun q => ?_
  rw [h'.mem_peers, List.mem_cons, h.mem_peers, hadd, Std.ExtTreeMap.getElem?_insert]
  by_cases hid : p.id = q.id
  · rw [if_pos (Std.LawfulEqOrd.compare_eq_iff_eq.mpr hid), ← hid, hnone]
    simp [eq_comm]
  · rw [if_neg fun heq => hid (Std.LawfulEqOrd.eq_of_compare heq), or_iff_right]
    exact fun heq => hid (congrArg Peer.id heq).symm

/-- A new peer takes one place among the others, who stay in order. -/
theorem remotes_add (h : d.Sound) (location : Id) {p : Peer} (hnew : (d.add p).1 = true) :
    ∃ front back, d.remotes location = front ++ back ∧
      (d.add p).2.remotes location = front ++ p :: back := by
  have h' : (d.add p).2.Sound := h.learn (.joined p)
  have hperm := (h'.remotes_perm location).trans (h.peers_add_perm hnew)
  obtain ⟨front, back, hrow⟩ := List.append_of_mem (hperm.mem_iff.mpr List.mem_cons_self)
  refine ⟨front, back, (h.remotes_unique ?_ ?_).symm, hrow⟩
  · exact (List.perm_middle.symm.trans (hrow ▸ hperm)).cons_inv
  · have hsorted := h'.ascending_remotes location
    rw [hrow] at hsorted
    exact hsorted.sublist ((List.sublist_cons_self p back).append_left front)

end Sound

/-! ### The replicas -/

/-- These are the `count` other members that are closest to the location, closest first, or all of
them if there are no more. -/
structure NearestOthers (d : Directory) (location : Id) (count : Nat) (picked : List Peer) :
    Prop where
  length : picked.length = min count d.peers.length
  others : ∀ p ∈ picked, p ∈ d.peers ∧ p.id ≠ d.self.id
  distinct : (picked.map Peer.id).Nodup
  ascending : picked.Pairwise fun p q => Id.closer location p.id q.id = true
  omitted : ∀ p ∈ d.peers, p ∉ picked → ∀ q ∈ picked, Id.closer location q.id p.id = true

/-- The first members of the ranking are the nearest ones. There are no ties, since different ids
are at different distances. -/
theorem Sound.nearestOthers_take (h : d.Sound) (location : Id) (count : Nat) :
    d.NearestOthers location count ((d.remotes location).take count) := by
  have hperm := h.remotes_perm location
  have hsorted := h.ascending_remotes location
  constructor
  case length => rw [List.length_take, hperm.length_eq]
  case others =>
    intro p hp
    have hpeer := hperm.mem_iff.mp (List.mem_of_mem_take hp)
    exact ⟨hpeer, h.id_ne_self hpeer⟩
  case distinct => exact (h.nodup_remotes location).sublist ((List.take_sublist _ _).map _)
  case ascending => exact hsorted.sublist (List.take_sublist _ _)
  case omitted =>
    intro p hp hnot q hq
    have hmem := hperm.mem_iff.mpr hp
    rw [← List.take_append_drop count (d.remotes location)] at hmem hsorted
    exact (List.pairwise_append.mp hsorted).2.2 q hq p ((List.mem_append.mp hmem).resolve_left hnot)

/-- Whoever has joined and left, the replicas of a location are the other members that are closest
to it, closest first. A larger factor only adds replicas behind those; a new peer is no replica, or
one more, or one in place of the farthest. -/
theorem replicas_nearest (self : Peer) (changes : List MembershipChange) (location : Id)
    {factor : Nat} (hfactor : factor + 1 < UInt64.size) :
    let d := changes.foldl learn (alone self)
    d.NearestOthers location factor (d.replicas location factor) ∧
      (∀ larger, factor ≤ larger → larger + 1 < UInt64.size →
        d.replicas location factor <+: d.replicas location larger) ∧
      ∀ p, (d.add p).1 = true →
        Joined p (d.replicas location factor) ((d.add p).2.replicas location factor) := by
  intro d
  have h : d.Sound := sound_foldl_learn self changes
  rw [h.replicas_eq_take location hfactor]
  refine ⟨h.nearestOthers_take location factor, fun larger hle hlarger => ?_, fun p hnew => ?_⟩
  · rw [h.replicas_eq_take location hlarger]
    exact List.take_prefix_take_left hle
  · have h' : (d.add p).2.Sound := h.learn (.joined p)
    obtain ⟨front, back, hrow, hrow'⟩ := h.remotes_add location hnew
    rw [h'.replicas_eq_take location hfactor, hrow, hrow']
    exact joined_take p front back factor

/-- The second closest member is the node itself, and the new peer comes right behind it. One peer
has left, and one was announced twice. -/
theorem replicas_nearest_displaced :
    let peer (n : Nat) : Peer := ⟨.ofNat n, .v4 [127, 0, 0, 1] (.ofNat (7000 + n))⟩
    let changes : List MembershipChange := [.joined (peer 6), .joined (peer 4), .joined (peer 2),
      .joined (peer 0), .joined (peer 1), .left (.ofNat 0), .joined (peer 4)]
    let d := changes.foldl learn (alone (peer 2))
    2 + 1 < UInt64.size ∧ (d.replicas .zero 2).map Peer.id = [.ofNat 1, .ofNat 4] ∧
      d.NearestOthers .zero 2 (d.replicas .zero 2) ∧ 3 + 1 < UInt64.size ∧
      d.replicas .zero 2 <+: d.replicas .zero 3 ∧ (d.add (peer 3)).1 = true ∧
      ((d.add (peer 3)).2.replicas .zero 2).map Peer.id = [.ofNat 1, .ofNat 3] ∧
      Joined (peer 3) (d.replicas .zero 2) ((d.add (peer 3)).2.replicas .zero 2) := by
  intro peer changes d
  have hfactor : 2 + 1 < UInt64.size := by decide
  have hlarger : 3 + 1 < UInt64.size := by decide
  have hnew : (d.add (peer 3)).1 = true := by decide +kernel
  -- the distance from zero is the id itself, so the peers are listed in order
  have hpicked : ∀ d : Directory, d.Sound →
      (d.peers.Pairwise fun p q => Id.closer .zero p.id q.id = true) →
      d.replicas .zero 2 = d.peers.take 2 := fun d h hsorted => by
    rw [h.replicas_eq_take .zero hfactor, h.remotes_unique (.refl _) hsorted]
  have h : d.Sound := sound_foldl_learn (peer 2) changes
  have h' : (d.add (peer 3)).2.Sound := h.learn (.joined (peer 3))
  obtain ⟨hnearest, hprefix, hjoined⟩ := replicas_nearest (peer 2) changes .zero hfactor
  refine ⟨hfactor, ?_, hnearest, hlarger, hprefix 3 (by decide) hlarger, hnew, ?_,
    hjoined (peer 3) hnew⟩
  · rw [hpicked d h (by decide +kernel)]
    decide +kernel
  · rw [hpicked _ h' (by decide +kernel)]
    decide +kernel

end Directory

end DeltaMesh
