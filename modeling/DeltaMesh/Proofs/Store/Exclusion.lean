import DeltaMesh.Store.KeyLocks
import Mathlib.Data.List.Basic
import Mathlib.Data.List.Pairwise
import Mathlib.Logic.Relation

/-!
# Locks exclude each other

Any number of tasks look up locks, get them, give them back or give up, and the table is pruned in
between, in any order (`KeyLocks.Step`). What keeps two tasks apart is that all who want one key
refer to the lock that the table has for it (`KeyLocks.InOrder.entered`): pruning drops a lock only
when no one refers to it, so that no one is left behind with a lock that a newcomer does not find.

Main statement: `KeyLocks.locks_exclusive`.
-/

namespace DeltaMesh.KeyLocks

variable {τ : Type} {l l' : KeyLocks τ} {task : τ} {key : Key}

/-- With this claim the task waits for a lock. -/
def IsWait (task : τ) (c : Claim τ) : Prop := c.task = task ∧ c.grip = .waiting

/-- What can happen next. A task that waits for a lock looks for no other one meanwhile. A task may
hold several locks, and gives them back together; whoever gives them back one by one takes part as
several tasks. -/
inductive Step [DecidableEq τ] : KeyLocks τ → KeyLocks τ → Prop
  | fetch {l : KeyLocks τ} (task : τ) (key : Key) (hfree : ∀ c ∈ l.claims, ¬IsWait task c) :
    Step l (l.fetch task key)
  | acquire {l l' : KeyLocks τ} (task : τ) (h : l.acquire? task = some l') : Step l l'
  | release {l : KeyLocks τ} (task : τ) : Step l (l.release task)
  | abandon {l : KeyLocks τ} (task : τ) : Step l (l.abandon task)
  | prune {l : KeyLocks τ} : Step l l.prune

/-- What the tasks can come to. -/
def Reached [DecidableEq τ] (l : KeyLocks τ) : Prop := Relation.ReflTransGen Step empty l

/-! ### The invariant -/

/-- No two references of the list are alike in this respect. -/
def NoTwo {α : Type} (claims : List (Claim τ)) (P : Claim τ → Prop) (f : Claim τ → α) : Prop :=
  claims.Pairwise fun c c' => P c → P c' → f c ≠ f c'

/-- The table and the references of the tasks agree. -/
structure InOrder (l : KeyLocks τ) : Prop where
  /-- Different keys have different locks. -/
  apart : ∀ (k k' : Key) (lock : Nat), l.table[k]? = some lock → l.table[k']? = some lock → k = k'
  /-- A new lock differs from all locks in the table. -/
  below : ∀ (k : Key) (lock : Nat), l.table[k]? = some lock → lock < l.next
  /-- A task refers to the lock that the table has for its key. -/
  entered : ∀ c ∈ l.claims, l.table[c.key]? = some c.lock
  /-- A task waits for one lock at a time. -/
  patient : NoTwo l.claims (·.grip = .waiting) Claim.task
  /-- No two references hold one lock. -/
  exclusive : NoTwo l.claims (·.grip = .holding) Claim.lock

/-- Who holds the lock of a key. -/
def holders (l : KeyLocks τ) (key : Key) : List (Claim τ) :=
  l.claims.filter fun c => c.key = key ∧ c.grip = .holding

namespace InOrder

theorem empty : InOrder (.empty : KeyLocks τ) where
  apart _ _ _ h := by simp [KeyLocks.empty] at h
  below _ _ h := by simp [KeyLocks.empty] at h
  entered _ h := nomatch h
  patient := .nil
  exclusive := .nil

/-- The lock that a task is going to wait for is that of the key, in the table after as before. -/
theorem fetch (h : InOrder l) (hfree : ∀ c ∈ l.claims, ¬IsWait task c) :
    InOrder (l.fetch task key) := by
  have hpatient : ∀ lock,
      NoTwo (⟨task, key, lock, .waiting⟩ :: l.claims) (·.grip = .waiting) Claim.task := by
    intro lock
    refine List.pairwise_cons.mpr ⟨fun c hc _ hgrip htask => ?_, h.patient⟩
    exact hfree c hc ⟨htask.symm, hgrip⟩
  have hexclusive : ∀ lock,
      NoTwo (⟨task, key, lock, .waiting⟩ :: l.claims) (·.grip = .holding) Claim.lock := by
    intro lock
    exact List.pairwise_cons.mpr ⟨fun c _ hgrip => (nomatch hgrip), h.exclusive⟩
  cases htable : l.table[key]? with
  | some lock =>
    simp only [KeyLocks.fetch, htable]
    exact ⟨h.apart, h.below, List.forall_mem_cons.mpr ⟨htable, h.entered⟩, hpatient lock,
      hexclusive lock⟩
  | none =>
    simp only [KeyLocks.fetch, htable]
    -- the new entry, or one that was there before
    have hentry : ∀ (k : Key) (lock : Nat), (l.table.insert key l.next)[k]? = some lock →
        k = key ∧ lock = l.next ∨ l.table[k]? = some lock := by
      intro k lock hk
      rw [Std.ExtTreeMap.getElem?_insert] at hk
      split at hk
      case isTrue heq =>
        exact .inl ⟨(Std.LawfulEqOrd.eq_of_compare heq).symm, (Option.some.inj hk).symm⟩
      case isFalse => exact .inr hk
    refine ⟨fun k k' lock hk hk' => ?_, fun k lock hk => ?_, ?_, hpatient _, hexclusive _⟩
    · rcases hentry k lock hk with ⟨rfl, rfl⟩ | hold <;>
        rcases hentry k' _ hk' with ⟨rfl, hlock⟩ | hold'
      · rfl
      · exact absurd (h.below k' _ hold') (Nat.lt_irrefl _)
      · exact absurd (hlock ▸ h.below k _ hold) (Nat.lt_irrefl _)
      · exact h.apart k k' lock hold hold'
    · rcases hentry k lock hk with ⟨-, rfl⟩ | hold
      · exact Nat.lt_succ_self _
      · exact Nat.lt_succ_of_lt (h.below k lock hold)
    · refine List.forall_mem_cons.mpr ⟨Std.ExtTreeMap.getElem?_insert_self, fun c hc => ?_⟩
      have hne : compare key c.key ≠ .eq := by
        intro heq
        have hcompare := h.entered c hc
        rw [← Std.LawfulEqOrd.eq_of_compare heq, htable] at hcompare
        cases hcompare
      exact (Std.ExtTreeMap.getElem?_insert).trans ((if_neg hne).trans (h.entered c hc))

/-- Two references of a task that waits are one. -/
theorem eq_of_isWait (h : InOrder l) {c c' : Claim τ} (hc : c ∈ l.claims) (hc' : c' ∈ l.claims)
    (hwait : IsWait task c) (hwait' : IsWait task c') : c = c' := by
  have : Std.Symm fun a b : Claim τ => a.grip = .waiting → b.grip = .waiting → a.task ≠ b.task :=
    ⟨fun a b hab hb ha => (hab ha hb).symm⟩
  by_contra hne
  exact h.patient.forall hc hc' hne hwait.2 hwait'.2 (hwait.1.trans hwait'.1.symm)

/-- Pruning drops the entries of the keys that no task refers to, and no others. -/
theorem getElem?_prune (h : InOrder l) (k : Key) :
    l.prune.table[k]? = if ∃ c ∈ l.claims, c.key = k then l.table[k]? else none := by
  rw [KeyLocks.prune, Std.ExtTreeMap.getElem?_filter']
  split
  case isTrue hclaimed =>
    obtain ⟨c, hc, rfl⟩ := hclaimed
    rw [h.entered c hc, Option.filter_some, if_pos]
    exact List.any_eq_true.mpr ⟨c, hc, decide_eq_true rfl⟩
  case isFalse hunclaimed =>
    refine Option.filter_eq_none_iff.mpr fun lock hlock hany => hunclaimed ?_
    obtain ⟨c, hc, heq⟩ := List.any_eq_true.mp hany
    refine ⟨c, hc, h.apart c.key k lock ?_ hlock⟩
    rw [← of_decide_eq_true heq]
    exact h.entered c hc

theorem prune (h : InOrder l) : InOrder l.prune := by
  have hkept : ∀ (k : Key) (lock : Nat), l.prune.table[k]? = some lock →
      l.table[k]? = some lock := by
    intro k lock hk
    rw [h.getElem?_prune] at hk
    split at hk
    · exact hk
    · cases hk
  refine ⟨fun k k' lock hk hk' => ?_, fun k lock hk => ?_, fun c hc => ?_, h.patient, h.exclusive⟩
  · exact h.apart k k' lock (hkept k lock hk) (hkept k' lock hk')
  · exact h.below k lock (hkept k lock hk)
  · rw [h.getElem?_prune, if_pos ⟨c, hc, rfl⟩]
    exact h.entered c hc

theorem length_holders_le (h : InOrder l) (key : Key) : (l.holders key).length ≤ 1 := by
  have hnone : (l.holders key).Pairwise fun _ _ => False := by
    refine (h.exclusive.filter _).imp_of_mem ?_
    intro c c' hc hc' hne
    obtain ⟨hmem, hholds⟩ := List.mem_filter.mp hc
    obtain ⟨hmem', hholds'⟩ := List.mem_filter.mp hc'
    obtain ⟨rfl, hgrip⟩ := of_decide_eq_true hholds
    obtain ⟨hkey, hgrip'⟩ := of_decide_eq_true hholds'
    have hlock := h.entered c' hmem'
    rw [hkey, h.entered c hmem] at hlock
    exact hne hgrip hgrip' (Option.some.inj hlock)
  cases hlist : l.holders key with
  | nil => exact Nat.zero_le _
  | cons c rest =>
    rw [hlist] at hnone
    cases rest with
    | nil => exact Nat.le_refl _
    | cons c' rest => exact ((List.pairwise_cons.mp hnone).1 c' List.mem_cons_self).elim

/-- Once no task refers to a lock, pruning leaves nothing; so the table cannot grow for ever. -/
theorem prune_eq_empty_iff (h : InOrder l) : l.prune.table = ∅ ↔ l.claims = [] := by
  constructor
  · intro hempty
    refine List.eq_nil_iff_forall_not_mem.mpr fun c hc => ?_
    have hentry := h.prune.entered c hc
    rw [hempty, Std.ExtTreeMap.getElem?_empty] at hentry
    cases hentry
  · intro hnone
    refine Std.ExtTreeMap.ext_getElem? fun k => ?_
    rw [h.getElem?_prune, hnone, Std.ExtTreeMap.getElem?_empty]
    exact if_neg fun ⟨_, hc, _⟩ => nomatch hc

/-! ### Steps and runs -/

variable [DecidableEq τ]

/-- The one claim of a task that waits becomes a hold. The lock had no holder, so it has one now. -/
theorem acquire (h : InOrder l) (hacquire : l.acquire? task = some l') : InOrder l' := by
  rw [KeyLocks.acquire?] at hacquire
  split at hacquire
  case h_1 => cases hacquire
  case h_2 claim hfound =>
    split at hacquire
    case isTrue => cases hacquire
    case isFalse hheld =>
      obtain rfl := Option.some.inj hacquire
      have hclaim : claim ∈ l.claims := List.mem_of_find?_eq_some hfound
      have hwait : IsWait task claim := by simpa [IsWait] using List.find?_some hfound
      have hunheld : ∀ c ∈ l.claims, c.grip = .holding → c.lock ≠ claim.lock := by
        intro c hc hgrip hlock
        exact hheld (List.any_eq_true.mpr ⟨c, hc, decide_eq_true ⟨hlock, hgrip⟩⟩)
      refine ⟨h.apart, h.below, ?_, ?_, ?_⟩
      · intro c hc
        obtain ⟨c, hmem, rfl⟩ := List.mem_map.mp hc
        have hentered := h.entered c hmem
        dsimp only
        split <;> exact hentered
      · refine List.pairwise_map.mpr (h.patient.imp ?_)
        intro c c' hne hgrip hgrip'
        split at hgrip
        · cases hgrip
        · split at hgrip'
          · cases hgrip'
          · rename_i hc hc'
            rw [if_neg hc, if_neg hc']
            exact hne hgrip hgrip'
      · refine List.pairwise_map.mpr ((h.exclusive.and h.patient).imp_of_mem ?_)
        intro c c' hc hc' hne hgrip hgrip'
        -- whoever gets the lock now differs from whoever holds a lock already
        by_cases hnow : IsWait task c <;> by_cases hnow' : IsWait task c'
        · exact absurd (hnow.1.trans hnow'.1.symm) (hne.2 hnow.2 hnow'.2)
        · obtain rfl := h.eq_of_isWait hc hclaim hnow hwait
          rw [if_neg (show ¬(c'.task = task ∧ c'.grip = .waiting) from hnow')] at hgrip' ⊢
          rw [if_pos (show c.task = task ∧ c.grip = .waiting from hnow)]
          exact (hunheld c' hc' hgrip').symm
        · obtain rfl := h.eq_of_isWait hc' hclaim hnow' hwait
          rw [if_neg (show ¬(c.task = task ∧ c.grip = .waiting) from hnow)] at hgrip ⊢
          rw [if_pos (show c'.task = task ∧ c'.grip = .waiting from hnow')]
          exact hunheld c hc hgrip
        · rw [if_neg (show ¬(c.task = task ∧ c.grip = .waiting) from hnow)] at hgrip ⊢
          rw [if_neg (show ¬(c'.task = task ∧ c'.grip = .waiting) from hnow')] at hgrip' ⊢
          exact hne.1 hgrip hgrip'

/-- Ending references keeps the others in order. -/
theorem leave (h : InOrder l) (task : τ) (grip : Grip) : InOrder (l.leave task grip) where
  apart := h.apart
  below := h.below
  entered c hc := h.entered c (List.mem_filter.mp hc).1
  patient := h.patient.filter _
  exclusive := h.exclusive.filter _

theorem step (h : InOrder l) (hstep : Step l l') : InOrder l' := by
  cases hstep with
  | fetch task key hfree => exact h.fetch hfree
  | acquire task hacquire => exact h.acquire hacquire
  | release task => exact h.leave task .holding
  | abandon task => exact h.leave task .waiting
  | prune => exact h.prune

end InOrder

/-! ### Who refers to which key -/

/-- A task holds the lock of a key or waits for it. -/
def Refers (l : KeyLocks τ) (task : τ) (key : Key) (grip : Grip) : Prop :=
  ∃ lock, ⟨task, key, lock, grip⟩ ∈ l.claims

variable {other : τ} {k : Key} {grip : Grip}

/-- At most one task holds the lock of a key. -/
theorem InOrder.eq_of_refers (h : InOrder l) (htask : l.Refers task key .holding)
    (hother : l.Refers other key .holding) : other = task := by
  obtain ⟨lock, hlock⟩ := htask
  obtain ⟨lock', hlock'⟩ := hother
  have hmem : ⟨task, key, lock, .holding⟩ ∈ l.holders key :=
    List.mem_filter.mpr ⟨hlock, decide_eq_true ⟨rfl, rfl⟩⟩
  have hmem' : ⟨other, key, lock', .holding⟩ ∈ l.holders key :=
    List.mem_filter.mpr ⟨hlock', decide_eq_true ⟨rfl, rfl⟩⟩
  have hlength := h.length_holders_le key
  obtain ⟨c, hc⟩ : ∃ c, l.holders key = [c] :=
    List.length_eq_one_iff.mp (Nat.le_antisymm hlength (List.length_pos_of_mem hmem))
  rw [hc, List.mem_singleton] at hmem hmem'
  exact congrArg Claim.task (hmem'.trans hmem.symm)

theorem refers_fetch : (l.fetch task key).Refers other k grip ↔
    (other = task ∧ k = key ∧ grip = .waiting) ∨ l.Refers other k grip := by
  have hclaims : ∃ lock, (l.fetch task key).claims = ⟨task, key, lock, .waiting⟩ :: l.claims := by
    cases htable : l.table[key]? <;> simp only [fetch, htable] <;> exact ⟨_, rfl⟩
  obtain ⟨lock, hclaims⟩ := hclaims
  simp only [Refers, hclaims, List.mem_cons, Claim.mk.injEq]
  constructor
  · rintro ⟨lock', ⟨htask, hkey, -, hgrip⟩ | hmem⟩
    · exact .inl ⟨htask, hkey, hgrip⟩
    · exact .inr ⟨lock', hmem⟩
  · rintro (⟨htask, hkey, hgrip⟩ | ⟨lock', hmem⟩)
    · exact ⟨lock, .inl ⟨htask, hkey, rfl, hgrip⟩⟩
    · exact ⟨lock', .inr hmem⟩

variable [DecidableEq τ]

theorem refers_leave {left : Grip} : (l.leave task left).Refers other k grip ↔
    ¬(other = task ∧ grip = left) ∧ l.Refers other k grip := by
  simp only [Refers, leave, List.mem_filter, decide_eq_true_eq]
  constructor
  · rintro ⟨lock, hmem, hnot⟩
    exact ⟨hnot, lock, hmem⟩
  · rintro ⟨hnot, lock, hmem⟩
    exact ⟨lock, hmem, hnot⟩

theorem refers_drop : (l.drop task).Refers other k grip ↔ other ≠ task ∧ l.Refers other k grip := by
  rw [drop, abandon, release, refers_leave, refers_leave]
  cases grip <;> simp

/-- A task that gets a lock now holds what it waited for, and nobody else's references change. -/
theorem refers_acquire (h : l.acquire? task = some l') : l'.Refers other k grip ↔
    if other = task then
      grip = .holding ∧ (l.Refers other k .waiting ∨ l.Refers other k .holding)
    else l.Refers other k grip := by
  rw [acquire?] at h
  split at h
  case h_1 => cases h
  case h_2 claim hfound =>
    split at h
    case isTrue => cases h
    case isFalse =>
      obtain rfl := Option.some.inj h
      simp only [Refers, List.mem_map]
      split
      case isTrue heq =>
        subst heq
        constructor
        · rintro ⟨lock, c, hc, heq⟩
          split at heq
          case isTrue hwait =>
            obtain ⟨rfl, rfl, rfl, rfl⟩ := Claim.mk.inj heq
            exact ⟨rfl, .inl ⟨c.lock, hwait.2 ▸ hc⟩⟩
          case isFalse hnot =>
            subst heq
            cases grip with
            | waiting => exact absurd ⟨rfl, rfl⟩ hnot
            | holding => exact ⟨rfl, .inr ⟨lock, hc⟩⟩
        · rintro ⟨rfl, ⟨lock, hc⟩ | ⟨lock, hc⟩⟩
          · exact ⟨lock, _, hc, if_pos ⟨rfl, rfl⟩⟩
          · exact ⟨lock, _, hc, if_neg fun hwait => nomatch hwait.2⟩
      case isFalse hne =>
        constructor
        · rintro ⟨lock, c, hc, heq⟩
          split at heq
          case isTrue hwait =>
            obtain ⟨rfl, rfl, rfl, rfl⟩ := Claim.mk.inj heq
            exact absurd hwait.1 hne
          case isFalse => exact ⟨lock, heq ▸ hc⟩
        · rintro ⟨lock, hc⟩
          exact ⟨lock, _, hc, if_neg fun hwait => hne hwait.1⟩

/-- Nobody holds a lock that a task can get, and so the task will be its only holder. -/
theorem InOrder.not_refers_of_acquire (h : InOrder l) (hacquire : l.acquire? task = some l')
    (hwaits : l.Refers task key .waiting) : ¬l.Refers other key .holding := by
  rintro ⟨lock, hholds⟩
  obtain ⟨lock', hwaits⟩ := hwaits
  rw [acquire?] at hacquire
  split at hacquire
  case h_1 => cases hacquire
  case h_2 claim hfound =>
    split at hacquire
    case isTrue => cases hacquire
    case isFalse hheld =>
      have hclaim : IsWait task claim := by simpa [IsWait] using List.find?_some hfound
      obtain rfl := h.eq_of_isWait (List.mem_of_find?_eq_some hfound) hwaits hclaim ⟨rfl, rfl⟩
      refine hheld (List.any_eq_true.mpr ⟨_, hholds, decide_eq_true ⟨?_, rfl⟩⟩)
      exact Option.some.inj ((h.entered _ hholds).symm.trans (h.entered _ hwaits))

/-- A lock that nobody holds can be got by whoever waits for it, in whichever order they came. -/
theorem InOrder.exists_acquire (h : InOrder l) (hwaits : l.Refers task key .waiting)
    (hfree : ∀ other, ¬l.Refers other key .holding) : ∃ l', l.acquire? task = some l' := by
  obtain ⟨lock, hwaits⟩ := hwaits
  rw [acquire?]
  split
  case h_1 hnone =>
    exact absurd (decide_eq_true ⟨rfl, rfl⟩) (List.find?_eq_none.mp hnone _ hwaits)
  case h_2 claim hfound =>
    have hclaim : IsWait task claim := by simpa [IsWait] using List.find?_some hfound
    obtain rfl := h.eq_of_isWait (List.mem_of_find?_eq_some hfound) hwaits hclaim ⟨rfl, rfl⟩
    refine ⟨_, if_neg fun hheld => ?_⟩
    obtain ⟨c, hc, heq⟩ := List.any_eq_true.mp hheld
    obtain ⟨hlock, hgrip⟩ := of_decide_eq_true heq
    refine hfree c.task ⟨c.lock, ?_⟩
    have hkey : c.key = key :=
      h.apart c.key key lock ((h.entered c hc).trans (congrArg some hlock)) (h.entered _ hwaits)
    rw [← hkey, ← hgrip]
    exact hc

/-! ### Any order of steps -/

theorem Reached.inOrder (h : Reached l) : InOrder l := by
  induction h with
  | refl => exact .empty
  | tail _ hstep ih => exact ih.step hstep

/-- Whatever tasks and prunings do and in which order, all tasks that hold or wait for the lock of a
key refer to the lock in the table, at most one of them holds it, and pruning drops the locks that
no task holds or waits for and nothing else: all of them once the last task has left. -/
theorem locks_exclusive (l : KeyLocks τ) (h : Reached l) :
    (∀ c ∈ l.claims, l.table[c.key]? = some c.lock) ∧
    (∀ key, (l.holders key).length ≤ 1) ∧
    (∀ key, l.prune.table[key]? =
      if ∃ c ∈ l.claims, c.key = key then l.table[key]? else none) ∧
    l.prune.claims = l.claims ∧
    (l.prune.table = ∅ ↔ l.claims = []) :=
  ⟨h.inOrder.entered, h.inOrder.length_holders_le, h.inOrder.getElem?_prune, rfl,
    h.inOrder.prune_eq_empty_iff⟩

/-- While one task holds the lock of a key and another waits for it the lock survives pruning; when
both have left, nothing does. -/
theorem locks_exclusive_two_tasks :
    let key := Key.firstUnder .zero
    let l : KeyLocks Nat := ⟨(∅ : Std.ExtTreeMap Key Nat compare).insert key 0, 1,
      [⟨1, key, 0, .waiting⟩, ⟨0, key, 0, .holding⟩]⟩
    Reached l ∧ (l.holders key).length ≤ 1 ∧ l.prune.table[key]? = some 0 ∧
      ((l.release 0).abandon 1).prune.table = ∅ := by
  intro key l
  have hself : ((∅ : Std.ExtTreeMap Key Nat compare).insert key 0)[key]? = some 0 :=
    Std.ExtTreeMap.getElem?_insert_self
  let held : KeyLocks Nat := ⟨(∅ : Std.ExtTreeMap Key Nat compare).insert key 0, 1,
    [⟨0, key, 0, .holding⟩]⟩
  have hfetched : held.fetch 1 key = l := by simp only [fetch, held, hself, l]
  have hheld : Reached held := by
    refine .tail (b := KeyLocks.fetch .empty 0 key) ?_ (.acquire 0 rfl)
    exact .tail .refl (.fetch 0 key fun c hc => nomatch hc)
  have hreached : Reached l := hfetched ▸ hheld.tail (.fetch 1 key (by simp [held, IsWait]))
  obtain ⟨-, hholders, hprune, -, -⟩ := locks_exclusive l hreached
  have hleft := locks_exclusive ((l.release 0).abandon 1)
    ((hreached.tail (.release 0)).tail (.abandon 1))
  exact ⟨hreached, hholders key, (hprune key).trans hself, hleft.2.2.2.2.mpr (by decide)⟩

end DeltaMesh.KeyLocks
