import DeltaMesh.Proofs.Peer.Directory
import DeltaMesh.Proofs.Responsibility.Tracker

/-!
# Agreement on responsibility

A directory enters every peer under the peer's own id, whatever the node has heard before
(`Directory.wellEntered_foldl_learn`). Nodes that know each other rank the members alike, since no
two of them are equally far from a location (`Directory.Lists.map_id_closest_eq`). So every location
has one owner, and once all nodes have looked at it exactly that node is responsible for it,
whatever each was responsible for before (`ownership_agreed`).
-/

namespace DeltaMesh

variable {n : Nat}

/-! ### What a node has heard -/

namespace Directory

variable {node : Peer} {d : Directory}

/-- Every entry of the node's directory is under the id of its peer. -/
structure WellEntered (d : Directory) (node : Peer) : Prop where
  self : d.self = node
  entered : ∀ (id : Id) (p : Peer), d.others[id]? = some p → p.id = id

theorem wellEntered_alone (node : Peer) : (alone node).WellEntered node where
  self := rfl
  entered id p hp := by
    rw [alone, Std.ExtTreeMap.getElem?_empty] at hp
    cases hp

theorem WellEntered.learn (h : d.WellEntered node) (change : MembershipChange) :
    (d.learn change).WellEntered node := by
  cases change with
  | joined p =>
    rw [Directory.learn, add]
    split
    case isTrue => exact h
    case isFalse =>
      refine ⟨h.self, fun id q hq => ?_⟩
      rw [Std.ExtTreeMap.getElem?_insert] at hq
      split at hq
      case isTrue heq => exact Option.some.inj hq ▸ Std.LawfulEqOrd.eq_of_compare heq
      case isFalse => exact h.entered id q hq
  | left id =>
    refine ⟨h.self, fun id' q hq => ?_⟩
    rw [Directory.learn, remove, Std.ExtTreeMap.getElem?_erase] at hq
    split at hq
    case isTrue => cases hq
    case isFalse => exact h.entered id' q hq

theorem wellEntered_foldl_learn (node : Peer) (changes : List MembershipChange) :
    (changes.foldl learn (alone node)).WellEntered node := by
  suffices h : ∀ d : Directory, d.WellEntered node → (changes.foldl learn d).WellEntered node from
    h _ (wellEntered_alone node)
  induction changes with
  | nil => exact fun d hd => hd
  | cons change changes ih => exact fun d hd => ih _ (hd.learn change)

theorem wellEntered_ofPeers (node : Peer) (peers : List Peer) :
    (ofPeers node peers).WellEntered node := by
  have h := wellEntered_foldl_learn node (peers.map .joined)
  rwa [List.foldl_map] at h

/-- A node whose peers are the others lists all nodes, in whatever order it has heard of them. -/
theorem WellEntered.lists {ids : Fin n → Id} {i : Fin n} (h : d.WellEntered node)
    (hself : node.id = ids i)
    (hpeers : ∀ id, id ∈ d.peers.map Peer.id ↔ ∃ j, j ≠ i ∧ ids j = id) : d.Lists ids i where
  self := h.self ▸ hself
  entered := h.entered
  members id := by
    rw [← Std.ExtTreeMap.mem_keys, ← map_id_peers h.entered]
    exact hpeers id

/-! ### The order of the members -/

variable {ids : Fin n → Id} {i j : Fin n} {d' : Directory}

/-- The ids of the members are strictly sorted. -/
theorem Lists.pairwise_map_id_ranked (h : d.Lists ids i) (hids : Function.Injective ids)
    (location : Id) : ((d.ranked location).map Peer.id).Pairwise fun a b =>
      Id.closer location a b = true :=
  List.pairwise_map.mpr ((h.ranked_sorted hids location).imp And.left)

/-- Nodes that list the same nodes rank them alike, because no two ids are equally far from a
location. -/
theorem Lists.map_id_ranked_eq (h : d.Lists ids i) (h' : d'.Lists ids j)
    (hids : Function.Injective ids) (location : Id) :
    (d.ranked location).map Peer.id = (d'.ranked location).map Peer.id := by
  refine List.Perm.eq_of_pairwise (fun a b _ _ hab hba => ?_)
    (h.pairwise_map_id_ranked hids location) (h'.pairwise_map_id_ranked hids location)
    ((h.ranked_perm hids location).trans (h'.ranked_perm hids location).symm)
  rw [Id.not_closer_of_closer hab] at hba
  cases hba

theorem Lists.map_id_closest_eq (h : d.Lists ids i) (h' : d'.Lists ids j)
    (hids : Function.Injective ids) (location : Id) (count : Nat) :
    (d.closest location count).map Peer.id = (d'.closest location count).map Peer.id := by
  rw [closest, closest, List.map_take, List.map_take, h.map_id_ranked_eq h' hids location]

/-- These are the `count` ids that are closest to the location, closest first. -/
structure Nearest (ids : Fin n → Id) (location : Id) (count : Nat) (nearest : List Id) :
    Prop where
  length : nearest.length = min count n
  nodup : nearest.Nodup
  nodes : ∀ id ∈ nearest, ∃ j, id = ids j
  ascending : nearest.Pairwise fun a b => Id.closer location a b = true
  omitted : ∀ j, ids j ∉ nearest → ∀ id ∈ nearest, Id.closer location id (ids j) = true

theorem Lists.nearest_closest (h : d.Lists ids i) (hids : Function.Injective ids) (location : Id)
    (count : Nat) : Nearest ids location count ((d.closest location count).map Peer.id) := by
  have hperm := h.ranked_perm hids location
  have hsorted := h.pairwise_map_id_ranked hids location
  have hsplit := List.take_append_drop count ((d.ranked location).map Peer.id)
  rw [closest, List.map_take]
  constructor
  case length =>
    rw [List.length_take, hperm.length_eq, List.length_map, List.length_finRange]
  case nodup => exact (h.ranked_nodup hids location).sublist (List.take_sublist _ _)
  case nodes =>
    intro id hid
    obtain ⟨j, -, hj⟩ := List.mem_map.mp (hperm.mem_iff.mp (List.mem_of_mem_take hid))
    exact ⟨j, hj.symm⟩
  case ascending => exact hsorted.sublist (List.take_sublist _ _)
  case omitted =>
    intro j hj id hid
    have hmem : ids j ∈ (d.ranked location).map Peer.id :=
      hperm.mem_iff.mpr (List.mem_map_of_mem (List.mem_finRange j))
    rw [← hsplit] at hmem hsorted
    exact (List.pairwise_append.mp hsorted).2.2 id hid _ ((List.mem_append.mp hmem).resolve_left hj)

/-- Exactly one of the nodes owns the location in its own eyes, and all the others name that one. -/
theorem existsUnique_owner {d : Fin n → Directory} (h : ∀ i, (d i).Lists ids i)
    (hids : Function.Injective ids) (location : Id) (hn : 0 < n) :
    ∃! i, ((d i).owner location).id = (d i).self.id := by
  have hsame : ∀ i j, ((d i).owner location).id = ((d j).owner location).id := fun i j =>
    ((h i).sameMembers (h j) hids).owner_id location
  obtain ⟨owner, howner⟩ : ∃ j, ((d ⟨0, hn⟩).owner location).id = ids j := by
    have hmem := ((d ⟨0, hn⟩).owner_closest location).1
    exact (h _).exists_node hids (((d ⟨0, hn⟩).ranked_perm location).mem_iff.mpr hmem)
  refine ⟨owner, ?_, fun j hj => hids ?_⟩
  · exact (hsame owner _).trans (howner.trans (h owner).self.symm)
  · exact (h j).self.symm.trans (hj.symm.trans ((hsame j _).trans howner))

end Directory

/-! ### Looking at locations -/

/-- A node looks at locations: because values were written under one, or at several again. -/
inductive Look
  | written (location : Id)
  | surveyed (locations : List Id)

def Look.locations : Look → List Id
  | written location => [location]
  | surveyed locations => locations

namespace Tracker

/-- What a node is responsible for after a look. -/
def look (d : Directory) (t : Tracker) : Look → Tracker
  | .written location => t.notify d location
  | .surveyed locations => t.reevaluate d locations

variable (t : Tracker) (d : Directory) (location : Id)

theorem mem_owned_look (look : Look) : location ∈ (t.look d look).owned ↔
    if location ∈ look.locations then (d.owner location).id = d.self.id
    else location ∈ t.owned := by
  cases look with
  | written other =>
    rw [Tracker.look, notify, mem_owned_evaluate, Look.locations]
    simp only [List.mem_singleton]
    by_cases heq : location = other
    · rw [if_pos heq, if_pos heq, heq]
    · rw [if_neg heq, if_neg heq]
  | surveyed locations => exact t.mem_owned_reevaluate d location

/-- Once a node has looked at a location it is responsible for it if and only if it owns it,
whatever its tracker knew before. -/
theorem mem_owned_looks {looks : List Look} (hlooked : ∃ look ∈ looks, location ∈ look.locations) :
    location ∈ (looks.foldl (look d) t).owned ↔ (d.owner location).id = d.self.id := by
  have hkept : ∀ (looks : List Look) (t : Tracker),
      (location ∈ t.owned ↔ (d.owner location).id = d.self.id) →
      (location ∈ (looks.foldl (look d) t).owned ↔ (d.owner location).id = d.self.id) := by
    intro looks
    induction looks with
    | nil => exact fun t ht => ht
    | cons first looks ih =>
      intro t ht
      refine ih _ ((t.mem_owned_look d location first).trans ?_)
      split
      · rfl
      · exact ht
  induction looks generalizing t with
  | nil =>
    obtain ⟨look, hlook, -⟩ := hlooked
    cases hlook
  | cons first looks ih =>
    by_cases hfirst : location ∈ first.locations
    · exact hkept looks _ ((t.mem_owned_look d location first).trans (by rw [if_pos hfirst]))
    · obtain ⟨look, hlook, hlocation⟩ := hlooked
      have hlater : look ∈ looks :=
        (List.mem_cons.mp hlook).resolve_left fun heq => hfirst (heq ▸ hlocation)
      exact ih _ ⟨look, hlater, hlocation⟩

end Tracker

/-- Nodes that know each other, whatever each has heard before, name the same ids as the closest
ones to a location; and once all have looked at it, one of them is responsible for it. -/
theorem ownership_agreed (self : Fin n → Peer) (changes : Fin n → List MembershipChange)
    {d : Fin n → Directory} (hd : ∀ i, (changes i).foldl Directory.learn (.alone (self i)) = d i)
    (hself : Function.Injective fun i => (self i).id)
    (hpeers : ∀ i id, id ∈ (d i).peers.map Peer.id ↔ ∃ j, j ≠ i ∧ (self j).id = id)
    (location : Id) :
    (∀ count i, Directory.Nearest (fun i => (self i).id) location count
      (((d i).closest location count).map Peer.id)) ∧
    (∀ count i j, ((d i).closest location count).map Peer.id =
      ((d j).closest location count).map Peer.id) ∧
    ∀ (earlier : Fin n → Tracker) (looks : Fin n → List Look), 0 < n →
      (∀ i, ∃ look ∈ looks i, location ∈ look.locations) →
      ∃! i, location ∈ ((looks i).foldl (Tracker.look (d i)) (earlier i)).owned := by
  have hlists : ∀ i, (d i).Lists (fun i => (self i).id) i := fun i =>
    (hd i ▸ Directory.wellEntered_foldl_learn (self i) (changes i)).lists rfl (hpeers i)
  refine ⟨fun count i => (hlists i).nearest_closest hself location count,
    fun count i j => (hlists i).map_id_closest_eq (hlists j) hself location count,
    fun earlier looks hn hlooked => ?_⟩
  · simp only [fun i => (earlier i).mem_owned_looks (d i) location (hlooked i)]
    exact Directory.existsUnique_owner hlists hself location hn

/-- One node leaves and joins again, the other hears of itself first; both were responsible. -/
theorem ownership_agreed_rejoined :
    let first : Peer := .numbered 0
    let second : Peer := .numbered 1
    let changes : Fin 2 → List MembershipChange
      | 0 => [.joined second, .left second.id, .joined first, .joined second, .joined second]
      | 1 => [.joined second, .joined first, .left second.id]
    let d := fun i => (changes i).foldl Directory.learn (.alone (.numbered i))
    let location : Id := .ofNat 2
    let earlier := Tracker.empty.announce (.gained location)
    let looks : Fin 2 → List Look
      | 0 => [.surveyed [.zero, location], .written .max]
      | 1 => [.written location, .written location]
    ((d 0).closest location 2).map Peer.id = ((d 1).closest location 2).map Peer.id ∧
      ∃! i, location ∈ ((looks i).foldl (Tracker.look (d i)) earlier).owned := by
  intro first second changes d location earlier looks
  have hknown : ∀ i, (d i).peers.map Peer.id = [(Peer.numbered (1 - i)).id] := by
    decide +kernel
  have hpeers : ∀ i id, id ∈ (d i).peers.map Peer.id ↔ ∃ j, j ≠ i ∧ (Peer.numbered j).id = id := by
    intro i id
    have hother : ∀ i j : Fin 2, j ≠ i ↔ j = 1 - i := by decide
    simp only [hknown, List.mem_singleton, hother, exists_eq_left, eq_comm]
  obtain ⟨-, hclosest, howned⟩ := ownership_agreed Peer.numbered changes (fun _ => rfl) (by
    rw [Function.Injective]
    decide) hpeers location
  refine ⟨hclosest 2 0 1, howned (fun _ => earlier) looks (by decide) fun i => ?_⟩
  match i with
  | 0 => exact ⟨_, List.mem_cons_self, by decide⟩
  | 1 => exact ⟨_, List.mem_cons_self, by decide⟩

end DeltaMesh
