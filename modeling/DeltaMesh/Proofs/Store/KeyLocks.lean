import DeltaMesh.Store.KeyLocks
import Mathlib.Data.List.Basic
import Mathlib.Data.List.Pairwise

/-!
# Locks that nobody else wants

In a table that is in order (`KeyLocks.Sound`) different keys have different locks, every task
refers to the lock of its key, and to one lock only. A new task that wants the lock of a key that
no one refers to gets it at once (`Sound.acquire`), and when it gives the lock back the table is as
it was, but for locks that no one refers to (`Taken.alike`).
-/

namespace DeltaMesh.KeyLocks

/-- The table is in order, and all tasks that refer to a lock are numbered below `bound`. -/
structure Sound (l : KeyLocks Nat) (bound : Nat) : Prop where
  apart : ∀ (k k' : Key) (lock : Nat), l.table[k]? = some lock → l.table[k']? = some lock → k = k'
  below : ∀ (k : Key) (lock : Nat), l.table[k]? = some lock → lock < l.next
  entered : ∀ c ∈ l.claims, l.table[c.key]? = some c.lock
  early : ∀ c ∈ l.claims, c.task < bound
  distinct : l.claims.Pairwise (·.task ≠ ·.task)

/-- The references to the lock of a key. -/
def on (l : KeyLocks Nat) (key : Key) : List (Claim Nat) := l.claims.filter (·.key = key)

variable {l : KeyLocks Nat} {bound task : Nat} {key : Key}

theorem key_ne_of_on (hfree : l.on key = []) {c : Claim Nat} (hc : c ∈ l.claims) :
    c.key ≠ key := fun heq => by
  have hmem : c ∈ l.on key := List.mem_filter.mpr ⟨hc, decide_eq_true heq⟩
  rw [hfree] at hmem
  exact absurd hmem List.not_mem_nil

/-! ### Locks that no one refers to -/

/-- Two tables differ in locks only that no one refers to. -/
structure Alike (l l' : KeyLocks Nat) : Prop where
  claims : l'.claims = l.claims
  pruned : l'.prune.table = l.prune.table

namespace Alike

variable {l' l'' : KeyLocks Nat}

theorem refl (l : KeyLocks Nat) : Alike l l := ⟨rfl, rfl⟩

theorem trans (h : Alike l l') (h' : Alike l' l'') : Alike l l'' :=
  ⟨h'.claims.trans h.claims, h'.pruned.trans h.pruned⟩

theorem on_eq (h : Alike l l') (key : Key) : l'.on key = l.on key := by rw [on, h.claims, ← on]

end Alike

/-- Pruning again does nothing more. -/
theorem prune_prune (l : KeyLocks Nat) : l.prune.prune = l.prune := by
  rw [prune, prune]
  congr 1
  refine Std.ExtTreeMap.ext_getElem? fun key => ?_
  rw [Std.ExtTreeMap.getElem?_filter', Std.ExtTreeMap.getElem?_filter', Option.filter_filter]
  simp only [Bool.and_self]

/-- A lock that no one refers to is dropped by pruning, so entering it changes nothing that lasts.
-/
theorem alike_insert {lock : Nat} (hnone : l.table[key]? = none)
    (hfree : ∀ c ∈ l.claims, c.lock ≠ lock) (next : Nat) :
    Alike l { l with table := l.table.insert key lock, next } := by
  refine ⟨rfl, Std.ExtTreeMap.ext_getElem? fun k => ?_⟩
  rw [prune, prune, Std.ExtTreeMap.getElem?_filter', Std.ExtTreeMap.getElem?_filter',
    Std.ExtTreeMap.getElem?_insert]
  split
  case isTrue heq =>
    have hunclaimed : l.claims.any (fun c => c.lock = lock) = false := by
      simpa using hfree
    rw [← Std.LawfulEqOrd.eq_of_compare heq, hnone, Option.filter_none,
      Option.filter_some_neg]
    simp [hunclaimed]
  case isFalse => rfl

namespace Sound

theorem empty (bound : Nat) : Sound .empty bound where
  apart _ _ _ h := by simp [KeyLocks.empty] at h
  below _ _ h := by simp [KeyLocks.empty] at h
  entered _ h := nomatch h
  early _ h := nomatch h
  distinct := .nil

theorem mono (h : Sound l bound) {bound' : Nat} (hle : bound ≤ bound') : Sound l bound' :=
  { h with early := fun c hc => Nat.lt_of_lt_of_le (h.early c hc) hle }

/-- A task refers to one lock only. -/
theorem eq_of_task_eq (h : Sound l bound) {c c' : Claim Nat} (hc : c ∈ l.claims)
    (hc' : c' ∈ l.claims) (heq : c.task = c'.task) : c = c' := by
  have : Std.Symm fun a b : Claim Nat => a.task ≠ b.task := ⟨fun _ _ => Ne.symm⟩
  by_contra hne
  exact h.distinct.forall hc hc' hne heq

/-- Ending references keeps the table in order. -/
theorem leave (h : Sound l bound) (task : Nat) (grip : Grip) : Sound (l.leave task grip) bound where
  apart := h.apart
  below := h.below
  entered c hc := h.entered c (List.mem_filter.mp hc).1
  early c hc := h.early c (List.mem_filter.mp hc).1
  distinct := h.distinct.filter _

/-- Pruning only forgets locks that nobody refers to. -/
theorem prune (h : Sound l bound) : Sound l.prune bound where
  apart k k' lock hk hk' := by
    rw [KeyLocks.prune, Std.ExtTreeMap.getElem?_filter'] at hk hk'
    exact h.apart k k' lock (Option.eq_some_of_filter_eq_some hk)
      (Option.eq_some_of_filter_eq_some hk')
  below k lock hk := by
    rw [KeyLocks.prune, Std.ExtTreeMap.getElem?_filter'] at hk
    exact h.below k lock (Option.eq_some_of_filter_eq_some hk)
  entered c hc := by
    rw [KeyLocks.prune, Std.ExtTreeMap.getElem?_filter', Option.filter_eq_some_iff]
    exact ⟨h.entered c hc, List.any_eq_true.mpr ⟨c, hc, decide_eq_true rfl⟩⟩
  early := h.early
  distinct := h.distinct

/-- A key that no one refers to gets a new lock, with a number that was never given out before. -/
theorem enter (h : Sound l bound) (hfree : l.on key = []) :
    Sound { l with table := l.table.insert key l.next, next := l.next + 1 } bound := by
  have hnew : ∀ (k : Key) (lock : Nat), (l.table.insert key l.next)[k]? = some lock →
      k = key ∧ lock = l.next ∨ k ≠ key ∧ l.table[k]? = some lock := by
    intro k lock hk
    rw [Std.ExtTreeMap.getElem?_insert] at hk
    split at hk
    case isTrue heq =>
      exact .inl ⟨(Std.LawfulEqOrd.eq_of_compare heq).symm, (Option.some.inj hk).symm⟩
    case isFalse hne =>
      exact .inr ⟨fun heq => hne (Std.LawfulEqCmp.compare_eq_iff_eq.mpr heq.symm), hk⟩
  constructor
  · intro k k' lock hk hk'
    rcases hnew k lock hk with ⟨hkey, hlock⟩ | ⟨-, hheld⟩ <;>
      rcases hnew k' lock hk' with ⟨hkey', hlock'⟩ | ⟨-, hheld'⟩
    · exact hkey.trans hkey'.symm
    · exact absurd (hlock ▸ h.below k' lock hheld') (Nat.lt_irrefl _)
    · exact absurd (hlock' ▸ h.below k lock hheld) (Nat.lt_irrefl _)
    · exact h.apart k k' lock hheld hheld'
  · intro k lock hk
    rcases hnew k lock hk with ⟨-, rfl⟩ | ⟨-, hk⟩
    · exact Nat.lt_succ_self _
    · exact Nat.lt_succ_of_lt (h.below k lock hk)
  · intro c hc
    have hold : (l.table.insert key l.next)[c.key]? = l.table[c.key]? := by
      rw [Std.ExtTreeMap.getElem?_insert, if_neg]
      exact fun heq => key_ne_of_on hfree hc (Std.LawfulEqOrd.eq_of_compare heq).symm
    exact hold.trans (h.entered c hc)
  · exact h.early
  · exact h.distinct

/-- A lock that is looked up is that of the key, and no one else refers to it if no one refers to
the key. -/
theorem fetch (h : Sound l bound) (hfree : l.on key = []) (task : Nat) :
    ∃ lock, (l.fetch task key).claims = ⟨task, key, lock, .waiting⟩ :: l.claims ∧
      (l.fetch task key).table[key]? = some lock ∧ (∀ c ∈ l.claims, c.lock ≠ lock) ∧
      Sound { l.fetch task key with claims := l.claims } bound ∧
      Alike l { l.fetch task key with claims := l.claims } := by
  cases htable : l.table[key]? with
  | some lock =>
    refine ⟨lock, ?_, ?_, fun c hc heq => ?_, ?_, ?_⟩
    · simp only [KeyLocks.fetch, htable]
    · simp only [KeyLocks.fetch, htable]
    · exact key_ne_of_on hfree hc (h.apart c.key key lock (heq ▸ h.entered c hc) htable)
    · simpa only [KeyLocks.fetch, htable] using h
    · simpa only [KeyLocks.fetch, htable] using Alike.refl l
  | none =>
    have hunused : ∀ c ∈ l.claims, c.lock ≠ l.next := fun c hc =>
      Nat.ne_of_lt (h.below c.key c.lock (h.entered c hc))
    refine ⟨l.next, ?_, ?_, hunused, ?_, ?_⟩
    · simp only [KeyLocks.fetch, htable]
    · simp only [KeyLocks.fetch, htable]
      exact Std.ExtTreeMap.getElem?_insert_self
    · simpa only [KeyLocks.fetch, htable] using h.enter hfree
    · simpa only [KeyLocks.fetch, htable] using alike_insert htable hunused (l.next + 1)

/-- A new task gets a lock that no one refers to at once, and after that the table is as it was but
for its claim. -/
theorem acquire (h : Sound l bound) (hfree : l.on key = []) :
    ∃ l' lock, (l.fetch bound key).acquireInTurn? bound = some l' ∧
      l'.claims = ⟨bound, key, lock, .holding⟩ :: l.claims ∧ Sound l' (bound + 1) ∧
      Alike l { l' with claims := l.claims } := by
  obtain ⟨lock, hclaims, htable, hlocks, hsound, halike⟩ := h.fetch hfree bound
  generalize l.fetch bound key = fetched at hclaims htable hsound halike ⊢
  obtain ⟨table, next, claims⟩ := fetched
  subst hclaims
  have htasks : ∀ c ∈ l.claims, c.task ≠ bound := fun c hc => Nat.ne_of_lt (h.early c hc)
  refine ⟨⟨table, next, ⟨bound, key, lock, .holding⟩ :: l.claims⟩, lock, ?_, rfl, ?_, halike⟩
  · have hnext : isNext ⟨table, next, ⟨bound, key, lock, .waiting⟩ :: l.claims⟩ bound = true := by
      simpa [isNext] using hlocks
    have hheld : isHeld ⟨table, next, ⟨bound, key, lock, .waiting⟩ :: l.claims⟩ lock = false := by
      simpa [isHeld] using fun c hc heq => absurd heq (hlocks c hc)
    have hothers : l.claims.map (fun c =>
        if c.task = bound ∧ c.grip = .waiting then { c with grip := .holding } else c) =
          l.claims :=
      (List.map_congr_left fun c hc => if_neg fun heq => htasks c hc heq.1).trans (List.map_id _)
    rw [acquireInTurn?, if_pos hnext, acquire?]
    simp [hheld, hothers]
  · constructor
    · exact hsound.apart
    · exact hsound.below
    · exact List.forall_mem_cons.mpr ⟨htable, hsound.entered⟩
    · exact List.forall_mem_cons.mpr ⟨Nat.lt_succ_self _, (h.mono (Nat.le_succ _)).early⟩
    · exact List.pairwise_cons.mpr ⟨fun c hc => (htasks c hc).symm, h.distinct⟩

/-- Giving a lock back ends one reference. -/
theorem release_claims (h : Sound l bound) {c : Claim Nat} (hc : c ∈ l.claims)
    (hgrip : c.grip = .holding) : (l.release c.task).claims = l.claims.filter (· ≠ c) := by
  refine List.filter_congr fun c' hc' => decide_eq_decide.mpr (not_congr ?_)
  constructor
  · exact fun heq => h.eq_of_task_eq hc' hc heq.1
  · rintro rfl
    exact ⟨rfl, hgrip⟩

/-- Giving a lock back does not disturb the queues of other keys. -/
theorem on_release_of_ne (h : Sound l bound) {c : Claim Nat} (hc : c ∈ l.claims)
    (hgrip : c.grip = .holding) {k : Key} (hk : k ≠ c.key) :
    (l.release c.task).on k = l.on k := by
  rw [on, h.release_claims hc hgrip, List.filter_filter, on]
  refine List.filter_congr fun c' _ => ?_
  have hne : c'.key = k → c' ≠ c := fun heq hcc => hk (heq ▸ congrArg Claim.key hcc)
  by_cases heq : c'.key = k <;> simp [heq, hne]

/-- With the last reference to it a lock is free. -/
theorem on_release_self (h : Sound l bound) {c : Claim Nat} (hon : l.on c.key = [c])
    (hgrip : c.grip = .holding) : (l.release c.task).on c.key = [] := by
  have hc : c ∈ l.on c.key := hon ▸ List.mem_singleton_self c
  rw [on, h.release_claims (List.mem_filter.mp hc).1 hgrip, List.filter_comm, ← on, hon]
  simp

end Sound

/-- With the lock of `key` in the hands of the new task `task` the table is `l'`. -/
structure Taken (l : KeyLocks Nat) (task : Nat) (key : Key) (l' : KeyLocks Nat) : Prop where
  inTurn : (l.fetch task key).acquireInTurn? task = some l'
  sound : l'.Sound (task + 1)
  on_self : ∃ lock, l'.on key = [⟨task, key, lock, .holding⟩]
  on_other : ∀ k, k ≠ key → l'.on k = l.on k
  released : (l'.release task).Sound task
  alike : Alike l (l'.release task)

/-- Who gets a lock in turn gets it. -/
theorem Taken.now {l' : KeyLocks Nat} (h : Taken l task key l') :
    (l.fetch task key).acquire? task = some l' := by
  have hturn := h.inTurn
  rw [acquireInTurn?] at hturn
  split at hturn
  case isTrue => exact hturn
  case isFalse => cases hturn

/-- A lock nobody refers to is taken at once, also one that is still in the table from before. -/
theorem Sound.take (h : Sound l task) (hfree : l.on key = []) : ∃ l', Taken l task key l' := by
  obtain ⟨l', lock, hturn, hclaims, hsound, halike⟩ := h.acquire hfree
  have hself : l'.on key = [⟨task, key, lock, .holding⟩] := by
    rw [on, hclaims, List.filter_cons_of_pos (by simp), ← on, hfree]
  have hother : ∀ k, k ≠ key → l'.on k = l.on k := fun k hk => by
    rw [on, hclaims, List.filter_cons_of_neg (by simpa using hk.symm), ← on]
  have hback : (l'.release task).claims = l.claims := by
    rw [release, KeyLocks.leave, hclaims, List.filter_cons_of_neg (by simp)]
    exact List.filter_eq_self.mpr fun c hc => by simp [Nat.ne_of_lt (h.early c hc)]
  have hreleased : l'.release task = { l' with claims := l.claims } :=
    congrArg (fun claims => { l' with claims }) hback
  refine ⟨l', hturn, hsound, ⟨lock, hself⟩, hother, ?_, hreleased ▸ halike⟩
  exact { hsound.leave task .holding with early := fun c hc => h.early c (hback ▸ hc) }

end DeltaMesh.KeyLocks
