import DeltaMesh.Compute.Pool
import Mathlib.Data.List.Basic
import Mathlib.Data.List.Count
import Mathlib.Data.List.Nodup
import Mathlib.Logic.Relation

/-!
# What the slots of a pool bound

Any number of callers are admitted, do their work, leave, or are dropped on the way, in any order
(`ComputePool.Step`). Every step that takes or frees a slot changes the count of the free ones by
one, so that what is counted and what is held are all the slots there are (`ComputePool.Sound`), and
the slots bound the callers that do their work. They do not bound the work: a caller that is dropped
at work gives its slot back, while its work runs on. So as much work as the pool has slots may run
beside the work that was left behind (`ComputePool.slots_exact`), and there is no bound for all that
runs (`ComputePool.running_unbounded`).
-/

namespace DeltaMesh.ComputePool

variable {τ : Type} {p q : ComputePool τ} {caller : τ}

/-! ### Counting callers -/

/-- How much work runs whose caller was dropped. -/
def leftBehind (p : ComputePool τ) : Nat := p.callers.countP fun c => c.2 = .detached

/-- How many callers stand at stages of a kind. -/
def count (p : ComputePool τ) (kind : PoolStage → Bool) : Nat := p.callers.countP fun c => kind c.2

/-- One caller, or none, depending on the stage. -/
def one (kind : PoolStage → Bool) (stage : PoolStage) : Nat := if kind stage then 1 else 0

/-- Work that runs has a slot, or it was left behind by a caller who had one. -/
theorem running_le_held_add (p : ComputePool τ) : p.running ≤ p.held + p.leftBehind := by
  rw [running, held, leftBehind]
  induction p.callers with
  | nil => exact Nat.le_refl _
  | cons c callers ih =>
    have hone : one PoolStage.occupiesThread c.2 ≤
        one PoolStage.holdsSlot c.2 + one (· = .detached) c.2 := by
      cases c.2 <;> decide
    simp only [one] at hone
    rw [List.countP_cons, List.countP_cons, List.countP_cons]
    omega

/-- No caller is in the pool twice, and every slot is either counted as free or held. -/
structure Sound (p : ComputePool τ) : Prop where
  distinct : (p.callers.map Prod.fst).Nodup
  counted : p.available + p.held = p.size

/-- A caller that comes in takes one of the slots that were counted as free. -/
theorem Sound.enter (h : p.Sound) (hnew : caller ∉ p.callers.map Prod.fst)
    (hfree : 0 < p.available) :
    Sound { p with available := p.available - 1, callers := (caller, .admitted) :: p.callers } := by
  refine ⟨List.nodup_cons.mpr ⟨hnew, h.distinct⟩, ?_⟩
  have hcounted : p.available + p.callers.countP _ = p.size := h.counted
  show p.available - 1 + ((caller, PoolStage.admitted) :: p.callers).countP _ = p.size
  rw [List.countP_cons_of_pos rfl]
  omega

variable [DecidableEq τ]

/-! ### Steps and runs -/

/-- What can happen next. -/
inductive Step : ComputePool τ → ComputePool τ → Prop
  | enter {p q : ComputePool τ} (caller : τ) (h : p.admit? caller = some q) : Step p q
  | start {p q : ComputePool τ} (caller : τ) (h : p.start? caller = some q) : Step p q
  | finish {p q : ComputePool τ} (caller : τ) (h : p.finish? caller = some q) : Step p q
  | leave {p q : ComputePool τ} (caller : τ) (h : p.leave? caller = some q) : Step p q
  | cancel {p q : ComputePool τ} (caller : τ) (h : p.cancel? caller = some q) : Step p q

/-- What a pool of this size can come to. -/
def Reached (size : Nat) (p : ComputePool τ) : Prop :=
  ∃ unused, ofSize? size = some unused ∧ Relation.ReflTransGen Step unused p

/-! ### One caller moves -/

/-- A caller that stands at a stage is in the pool, once, and the others are other callers. -/
theorem exists_of_stage? {stage : PoolStage} (hnodup : (p.callers.map Prod.fst).Nodup)
    (h : p.stage? caller = some stage) :
    ∃ before after, p.callers = before ++ (caller, stage) :: after ∧
      ∀ c ∈ before ++ after, c.1 ≠ caller := by
  obtain ⟨⟨other, found⟩, hfind, rfl⟩ := Option.map_eq_some_iff.mp h
  obtain ⟨hcaller, before, after, heq, -⟩ := List.find?_eq_some_iff_append.mp hfind
  obtain rfl : other = caller := of_decide_eq_true hcaller
  refine ⟨before, after, heq, fun c hc heq' => ?_⟩
  rw [heq, List.map_append, List.map_cons, List.nodup_middle, List.nodup_cons,
    ← List.map_append] at hnodup
  exact hnodup.1 (List.mem_map.mpr ⟨c, hc, heq'⟩)

variable {stage stage' : PoolStage}

/-- Only the caller itself moves. -/
theorem count_moveTo (hnodup : (p.callers.map Prod.fst).Nodup) (h : p.stage? caller = some stage)
    (kind : PoolStage → Bool) :
    (p.moveTo caller stage').count kind + one kind stage = p.count kind + one kind stage' := by
  obtain ⟨before, after, heq, hothers⟩ := exists_of_stage? hnodup h
  have hkept : ∀ callers : List (τ × PoolStage), (∀ c ∈ callers, c.1 ≠ caller) →
      (callers.map fun c => if c.1 = caller then (caller, stage') else c) = callers := by
    intro callers hcallers
    refine (List.map_congr_left fun c hc => ?_).trans (List.map_id _)
    exact if_neg (hcallers c hc)
  rw [List.forall_mem_append] at hothers
  simp only [count, moveTo, heq, List.map_append, List.map_cons, hkept _ hothers.1,
    hkept _ hothers.2, if_true, List.countP_append, List.countP_cons, one]
  omega

/-- Only the caller itself goes. -/
theorem count_forget (hnodup : (p.callers.map Prod.fst).Nodup) (h : p.stage? caller = some stage)
    (kind : PoolStage → Bool) : (p.forget caller).count kind + one kind stage = p.count kind := by
  obtain ⟨before, after, heq, hothers⟩ := exists_of_stage? hnodup h
  have hkept : ∀ callers : List (τ × PoolStage), (∀ c ∈ callers, c.1 ≠ caller) →
      callers.filter (fun c => c.1 ≠ caller) = callers := fun callers hcallers =>
    List.filter_eq_self.mpr fun c hc => decide_eq_true (hcallers c hc)
  rw [List.forall_mem_append] at hothers
  simp only [count, forget, heq, List.filter_append, List.filter_cons, hkept _ hothers.1,
    hkept _ hothers.2, ne_eq, not_true_eq_false, decide_false, Bool.false_eq_true, if_false,
    List.countP_append, List.countP_cons, one]
  omega

/-! ### The count of the free slots -/

theorem map_fst_moveTo (p : ComputePool τ) (caller : τ) (stage : PoolStage) :
    (p.moveTo caller stage).callers.map Prod.fst = p.callers.map Prod.fst := by
  rw [moveTo, List.map_map]
  refine List.map_congr_left fun c _ => ?_
  rw [Function.comp_apply]
  split
  case isTrue heq => exact heq.symm
  case isFalse => rfl

/-- A caller that moves keeps its slot, or the slot that it had is counted as free. -/
theorem Sound.moveTo (h : p.Sound) (hstage : p.stage? caller = some stage) (freed : Nat)
    (hslot : one PoolStage.holdsSlot stage' + freed = one PoolStage.holdsSlot stage) :
    Sound { p.moveTo caller stage' with available := p.available + freed } := by
  have hcount : (p.moveTo caller stage').count _ + _ = p.count _ + one _ stage' :=
    count_moveTo h.distinct hstage PoolStage.holdsSlot
  have hcounted : p.available + p.count PoolStage.holdsSlot = p.size := h.counted
  refine ⟨p.map_fst_moveTo caller stage' ▸ h.distinct, ?_⟩
  show p.available + freed + (p.moveTo caller stage').count PoolStage.holdsSlot = p.size
  omega

/-- The slot of a caller that goes is counted as free, if it had one. -/
theorem Sound.forget (h : p.Sound) (hstage : p.stage? caller = some stage) (freed : Nat)
    (hslot : freed = one PoolStage.holdsSlot stage) :
    Sound { p.forget caller with available := p.available + freed } := by
  have hcount := count_forget h.distinct hstage PoolStage.holdsSlot
  have hcounted : p.available + p.count PoolStage.holdsSlot = p.size := h.counted
  refine ⟨h.distinct.sublist (List.filter_sublist.map _), ?_⟩
  show p.available + freed + (p.forget caller).count PoolStage.holdsSlot = p.size
  omega

theorem not_mem_of_stage?_eq_none (h : p.stage? caller = none) :
    caller ∉ p.callers.map Prod.fst := by
  intro hmem
  obtain ⟨c, hc, rfl⟩ := List.mem_map.mp hmem
  exact List.find?_eq_none.mp (Option.map_eq_none_iff.mp h) c hc (decide_eq_true rfl)

/-- Whatever happens next, the count of the free slots stays right. There is one case for each step:
admission takes a slot, and every way in which a caller goes gives its slot back. -/
theorem Sound.step (h : p.Sound) (hstep : Step p q) : q.Sound ∧ q.size = p.size := by
  cases hstep with
  | enter caller henter =>
    rw [admit?] at henter
    split at henter
    case isFalse => cases henter
    case isTrue hfree =>
      obtain rfl := Option.some.inj henter
      exact ⟨h.enter (not_mem_of_stage?_eq_none hfree.1) hfree.2, rfl⟩
  | start caller hstart =>
    rw [start?] at hstart
    split at hstart
    case isFalse => cases hstart
    case isTrue hstage => exact Option.some.inj hstart ▸ ⟨h.moveTo hstage 0 (by decide), rfl⟩
  | finish caller hfinish =>
    rw [finish?] at hfinish
    split at hfinish
    case h_1 hstage => exact Option.some.inj hfinish ▸ ⟨h.moveTo hstage 0 (by decide), rfl⟩
    case h_2 hstage => exact Option.some.inj hfinish ▸ ⟨h.forget hstage 0 (by decide), rfl⟩
    case h_3 => cases hfinish
  | leave caller hleave =>
    rw [leave?] at hleave
    split at hleave
    case isFalse => cases hleave
    case isTrue hstage => exact Option.some.inj hleave ▸ ⟨h.forget hstage 1 (by decide), rfl⟩
  | cancel caller hcancel =>
    rw [cancel?] at hcancel
    split at hcancel
    case h_1 | h_2 => cases hcancel
    case h_3 hstage => exact Option.some.inj hcancel ▸ ⟨h.moveTo hstage 1 (by decide), rfl⟩
    case h_4 stage hnot hne hstage =>
      -- the caller was admitted or has finished, and holds a slot
      have hslot : 1 = one PoolStage.holdsSlot stage := by
        cases stage <;> simp_all [one, PoolStage.holdsSlot]
      exact Option.some.inj hcancel ▸ ⟨h.forget hstage 1 hslot, rfl⟩

theorem Reached.sound {size : Nat} (h : Reached size p) : p.Sound ∧ p.size = max size 1 := by
  obtain ⟨unused, hunused, hsteps⟩ := h
  have hstart : unused = ⟨max size 1, max size 1, []⟩ := by
    rw [ofSize?] at hunused
    split at hunused
    · cases hunused
    · exact (Option.some.inj hunused).symm
  induction hsteps with
  | refl => exact hstart ▸ ⟨⟨.nil, rfl⟩, rfl⟩
  | tail _ hstep ih =>
    obtain ⟨hsound, hsize⟩ := ih.1.step hstep
    exact ⟨hsound, hsize.trans ih.2⟩

/-! ### The bound -/

/-- In whatever order callers come, work, leave and are dropped, every slot is either free or held,
and the work that runs exceeds the slots by no more than the work that was left behind. -/
theorem slots_exact {size : Nat} (h : Reached size p) :
    p.size = max size 1 ∧ p.available + p.held = p.size ∧
      p.running ≤ p.size + p.leftBehind ∧ (p.leftBehind = 0 → p.running ≤ p.size) := by
  obtain ⟨hsound, hsize⟩ := h.sound
  have hcounted := hsound.counted
  have hrunning := p.running_le_held_add
  exact ⟨hsize, hcounted, by omega, by omega⟩

/-- A caller left its work behind, and the next one is at work: one slot of the two is free, though
two works run. -/
theorem slots_exact_left_behind :
    let p : ComputePool Nat := ⟨2, 1, [(1, .working), (0, .detached)]⟩
    Reached 2 p ∧ p.available + p.held = 2 ∧ p.running ≤ p.size + p.leftBehind := by
  intro p
  have hreached : Reached 2 p := by
    refine ⟨⟨2, 2, []⟩, rfl, ?_⟩
    refine .tail (b := ⟨2, 1, [(1, .admitted), (0, .detached)]⟩) ?_ (.start 1 rfl)
    refine .tail (b := ⟨2, 2, [(0, .detached)]⟩) ?_ (.enter 1 rfl)
    refine .tail (b := ⟨2, 1, [(0, .working)]⟩) ?_ (.cancel 0 rfl)
    exact .tail (b := ⟨2, 1, [(0, .admitted)]⟩) (.single (.enter 0 rfl)) (.start 0 rfl)
  obtain ⟨-, havailable, hrunning, -⟩ := slots_exact hreached
  exact ⟨hreached, havailable, hrunning⟩

/-! ### Work that was left behind -/

/-- A new caller takes a free slot and begins its work, which takes two steps: it is admitted, and
then it hands its work over. -/
theorem Reached.begin {size : Nat} (h : Reached size p) (hnew : caller ∉ p.callers.map Prod.fst)
    (hfree : 0 < p.available) :
    Reached size
      { p with available := p.available - 1, callers := (caller, .working) :: p.callers } := by
  obtain ⟨unused, hunused, hsteps⟩ := h
  have hothers : ∀ c ∈ p.callers, c.1 ≠ caller := fun c hc heq =>
    hnew (List.mem_map.mpr ⟨c, hc, heq⟩)
  have hnone : p.stage? caller = none := by
    rw [stage?, List.find?_eq_none.mpr fun c hc => by simpa using hothers c hc]
    rfl
  refine ⟨unused, hunused, (hsteps.tail (.enter caller (if_pos ⟨hnone, hfree⟩))).tail
    (.start caller ?_)⟩
  have hkept : (p.callers.map fun c => if c.1 = caller then (caller, .working) else c) =
      p.callers :=
    (List.map_congr_left fun c hc => if_neg (hothers c hc)).trans (List.map_id _)
  rw [start?, stage?, List.find?_cons_of_pos (by simp)]
  simp only [Option.map_some, if_true, moveTo, List.map_cons, hkept]

/-- A caller at work is dropped. -/
theorem Reached.abandon {size : Nat} {callers : List (τ × PoolStage)}
    (h : Reached size { p with callers := (caller, .working) :: callers })
    (hnew : caller ∉ callers.map Prod.fst) :
    Reached size
      { p with available := p.available + 1, callers := (caller, .detached) :: callers } := by
  obtain ⟨unused, hunused, hsteps⟩ := h
  have hkept : (callers.map fun c => if c.1 = caller then (caller, .detached) else c) = callers :=
    (List.map_congr_left fun c hc => if_neg fun heq => hnew (List.mem_map.mpr ⟨c, hc, heq⟩)).trans
      (List.map_id _)
  refine ⟨unused, hunused, hsteps.tail (.cancel caller ?_)⟩
  rw [cancel?, stage?, List.find?_cons_of_pos (by simp)]
  simp only [Option.map_some, moveTo, giveBack, List.map_cons, hkept, if_true]

/-- A pool where `left` callers have left their work behind, and `busy` ones are at work. -/
def crowded (size left busy : Nat) : ComputePool Nat :=
  ⟨max size 1, max size 1 - busy, (List.range busy).reverse.map (left + ·, .working) ++
    (List.range left).reverse.map (·, .detached)⟩

variable {size left busy : Nat}

theorem running_crowded : (crowded size left busy).running = busy + left := by
  simp [running, crowded, List.countP_map, Function.comp_def, PoolStage.occupiesThread]

theorem leftBehind_crowded : (crowded size left busy).leftBehind = left := by
  simp [leftBehind, crowded, List.countP_map, Function.comp_def]

theorem reached_crowded (hsize : size ≤ maxSize) (hbusy : busy ≤ max size 1) :
    Reached size (crowded size left busy) := by
  induction busy with
  | zero =>
    induction left with
    | zero => exact ⟨_, if_neg (by omega), .refl⟩
    | succ left ih =>
      have hnew : left ∉ (crowded size left 0).callers.map Prod.fst := by
        simp [crowded]
      have hfree : 0 < (crowded size left 0).available := Nat.le_max_right size 1
      have hleft := Reached.abandon (p := { crowded size left 0 with available := max size 1 - 1 })
        (ih.begin hnew hfree) hnew
      have hsame : max size 1 - 1 + 1 = max size 1 := Nat.sub_add_cancel hfree
      simpa [crowded, List.range_succ, hsame] using hleft
  | succ busy ih =>
    have hnew : left + busy ∉ (crowded size left busy).callers.map Prod.fst := by
      simp [crowded]
    have hfree : 0 < (crowded size left busy).available := Nat.sub_pos_of_lt hbusy
    have hbegun := (ih (by omega)).begin hnew hfree
    simpa [crowded, List.range_succ, Nat.sub_add_eq] using hbegun

/-- All slots may be at work beside any amount of work that was left behind. -/
theorem running_unbounded (hsize : size ≤ maxSize) (left : Nat) :
    ∃ p : ComputePool Nat, Reached size p ∧ p.leftBehind = left ∧ p.running = p.size + left :=
  ⟨crowded size left (max size 1), reached_crowded hsize (Nat.le_refl _), leftBehind_crowded,
    running_crowded⟩

/-- A pool with one slot runs two works at once, the first one's caller having been dropped. -/
theorem running_exceeds_size :
    let p : ComputePool Nat := ⟨1, 0, [(1, .working), (0, .detached)]⟩
    Reached 1 p ∧ ¬p.running ≤ p.size := by
  intro p
  have hreached : Reached 1 (crowded 1 1 1) := reached_crowded (by decide) (by decide)
  exact ⟨hreached, by decide⟩

end DeltaMesh.ComputePool
