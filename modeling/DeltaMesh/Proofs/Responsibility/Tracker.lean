import DeltaMesh.Responsibility.Tracker
import Mathlib.Data.List.Basic
import Mathlib.Data.List.Nodup

/-!
# What a tracker announces

Looking at a location makes the node responsible for it exactly if the node is its owner
(`Tracker.mem_owned_evaluate_self`), and concerns no other location. Of locations that are looked
at one after the other each is announced at most once, and only if its owner has changed
(`Tracker.log_reevaluate`).
-/

namespace DeltaMesh

theorem Event.mem_apply_of_ne (owned : Std.ExtTreeSet Id compare) (e : Event) {other : Id}
    (hne : other ≠ e.location) : other ∈ e.apply owned ↔ other ∈ owned := by
  cases e with
  | gained location =>
    rw [apply, Std.ExtTreeSet.mem_insert, Std.LawfulEqOrd.compare_eq_iff_eq,
      or_iff_right fun heq => hne heq.symm]
  | lost location newOwner delayed =>
    rw [apply, Std.ExtTreeSet.mem_erase, Ne, Std.LawfulEqOrd.compare_eq_iff_eq,
      and_iff_right fun heq => hne heq.symm]

namespace Tracker

variable (t : Tracker) (d : Directory) (location : Id) (delayed : Bool)

/-- A change concerns the location that is looked at. -/
theorem location_of_change? {t : Tracker} {d : Directory} {location : Id} {delayed : Bool}
    {e : Event} (h : t.change? d location delayed = some e) : e.location = location := by
  rw [change?] at h
  split at h <;> split at h
  · cases h
  · exact Option.some.inj h ▸ rfl
  · exact Option.some.inj h ▸ rfl
  · cases h

/-- What changes for a location depends on whether the node was responsible for it only. -/
theorem change?_congr {t t' : Tracker} {location : Id}
    (h : location ∈ t'.owned ↔ location ∈ t.owned) :
    t'.change? d location delayed = t.change? d location delayed := by
  have hcontains : t'.owned.contains location = t.owned.contains location := by
    rw [Bool.eq_iff_iff, Std.ExtTreeSet.contains_iff_mem, Std.ExtTreeSet.contains_iff_mem]
    exact h
  simp only [change?, hcontains]

/-- A change of a location that the node was responsible for is its loss. -/
theorem change?_of_mem (h : location ∈ t.owned) : t.change? d location delayed =
    if (d.owner location).id = d.self.id then none
    else some (.lost location (d.owner location) delayed) := by
  have hcontains : t.owned.contains location = true := Std.ExtTreeSet.contains_iff_mem.mpr h
  simp only [change?, hcontains, if_true]

theorem log_evaluate : (t.evaluate d location delayed).log.toList =
    t.log.toList ++ (t.change? d location delayed).toList := by
  rw [evaluate]
  cases t.change? d location delayed with
  | none => exact (List.append_nil _).symm
  | some e => exact Array.toList_push

theorem mem_owned_evaluate_of_ne {other : Id} (hne : other ≠ location) :
    other ∈ (t.evaluate d location delayed).owned ↔ other ∈ t.owned := by
  rw [evaluate]
  cases hchange : t.change? d location delayed with
  | none => rfl
  | some e => exact e.mem_apply_of_ne t.owned ((location_of_change? hchange).symm ▸ hne)

theorem mem_owned_evaluate_self : location ∈ (t.evaluate d location delayed).owned ↔
    (d.owner location).id = d.self.id := by
  rw [evaluate, change?]
  by_cases howner : (d.owner location).id = d.self.id <;>
    cases hcontains : t.owned.contains location
  · simp [howner, announce, Event.apply]
  · simpa [howner] using Std.ExtTreeSet.contains_iff_mem.mp hcontains
  · have hnot : location ∉ t.owned := fun hmem => by
      rw [Std.ExtTreeSet.contains_iff_mem.mpr hmem] at hcontains
      cases hcontains
    simpa [howner] using hnot
  · simp [howner, announce, Event.apply]

theorem mem_owned_evaluate (other : Id) : other ∈ (t.evaluate d location delayed).owned ↔
    if other = location then (d.owner location).id = d.self.id else other ∈ t.owned := by
  split
  case isTrue heq => exact heq ▸ t.mem_owned_evaluate_self d location delayed
  case isFalse hne => exact t.mem_owned_evaluate_of_ne d location delayed hne

/-! ### Looking at several locations -/

variable {locations : List Id}

/-- Each location is announced for what the node was responsible for before; looks at other
locations in between do not matter. -/
theorem log_reevaluate (hnodup : locations.Nodup) : (t.reevaluate d locations).log.toList =
    t.log.toList ++ locations.filterMap fun location => t.change? d location true := by
  induction locations generalizing t with
  | nil => exact (List.append_nil _).symm
  | cons location locations ih =>
    obtain ⟨hnotin, hnodup⟩ := List.nodup_cons.mp hnodup
    have hlater : ∀ other ∈ locations,
        (t.evaluate d location true).change? d other true = t.change? d other true := by
      intro other hother
      refine change?_congr d true (t.mem_owned_evaluate_of_ne d location true ?_)
      exact fun heq => hnotin (heq ▸ hother)
    rw [reevaluate, List.foldl_cons, ← reevaluate, ih _ hnodup, log_evaluate, List.append_assoc,
      List.filterMap_congr hlater, List.filterMap_cons]
    cases t.change? d location true <;> rfl

theorem mem_owned_foldl_evaluate (other : Id) :
    other ∈ (locations.foldl (fun t location => t.evaluate d location delayed) t).owned ↔
      if other ∈ locations then (d.owner other).id = d.self.id else other ∈ t.owned := by
  induction locations generalizing t with
  | nil => rw [if_neg List.not_mem_nil]; rfl
  | cons location locations ih =>
    rw [List.foldl_cons, ih, mem_owned_evaluate]
    by_cases hlater : other ∈ locations
    · rw [if_pos hlater, if_pos (List.mem_cons_of_mem _ hlater)]
    · by_cases hfirst : other = location
      · rw [if_neg hlater, if_pos hfirst, if_pos (hfirst ▸ List.mem_cons_self), hfirst]
      · rw [if_neg hlater, if_neg hfirst, if_neg fun hmem => ?_]
        exact (List.mem_cons.mp hmem).elim hfirst hlater

theorem mem_owned_reevaluate (other : Id) : other ∈ (t.reevaluate d locations).owned ↔
    if other ∈ locations then (d.owner other).id = d.self.id else other ∈ t.owned :=
  t.mem_owned_foldl_evaluate d true other

/-- A node that was responsible for all locations announces the ones that others own now. -/
theorem log_reevaluate_of_owned (hnodup : locations.Nodup)
    (howned : ∀ location ∈ locations, location ∈ t.owned) :
    (t.reevaluate d locations).log.toList = t.log.toList ++
      (locations.filter fun location => (d.owner location).id ≠ d.self.id).map fun location =>
        .lost location (d.owner location) true := by
  rw [log_reevaluate t d hnodup]
  congr 1
  clear hnodup
  induction locations with
  | nil => rfl
  | cons location locations ih =>
    obtain ⟨hfirst, hrest⟩ := List.forall_mem_cons.mp howned
    rw [List.filterMap_cons, t.change?_of_mem d location true hfirst, List.filter_cons, ih hrest]
    by_cases howner : (d.owner location).id = d.self.id <;> simp [howner]

/-! ### Locations that were written to -/

/-- Values under several locations were written. -/
def notifyAll (locations : List Id) : Tracker :=
  locations.foldl (fun t location => t.notify d location) t

variable {t d}

/-- There may be nothing to announce about the locations. -/
theorem notifyAll_of_quiet (h : ∀ location ∈ locations, t.notify d location = t) :
    t.notifyAll d locations = t := by
  induction locations with
  | nil => rfl
  | cons location locations ih =>
    obtain ⟨hfirst, hrest⟩ := List.forall_mem_cons.mp h
    rw [notifyAll, List.foldl_cons, hfirst]
    exact ih hrest

theorem mem_owned_notifyAll (other : Id) : other ∈ (t.notifyAll d locations).owned ↔
    if other ∈ locations then (d.owner other).id = d.self.id else other ∈ t.owned :=
  t.mem_owned_foldl_evaluate d false other

end Tracker

end DeltaMesh
