import DeltaMesh.Config.Node
import DeltaMesh.Factor.Estimator
import Mathlib.Data.List.Basic

/-!
# The replication factor in the long run

An estimator hears of results and is asked for the factor again and again (`Estimator.Call`). With
every check made, of the bounds that the factor is moved into and of the number of results that a
share is taken of, no call ever stops (`Estimator.call`): the bounds are in order in every
configuration that a node accepts, and the counts, which begin anew after the hundredth result, are
not empty when a share is taken. Nothing is assumed of the estimated availability, nor of the tests
against the target: whatever they say, the search ends within the bounds
(`FactorConfig.search_within`).

Main statement: `Estimator.calls_within`.
-/

namespace DeltaMesh

/-! ### Configurations that are accepted -/

/-- A computation in two steps succeeds only if both do. -/
theorem exists_of_bind_eq_ok {ε α β : Type} {x : Except ε α} {f : α → Except ε β} {b : β}
    (h : x >>= f = .ok b) : ∃ a, x = .ok a ∧ f a = .ok b := by
  cases x with
  | error why => cases h
  | ok a => exact ⟨a, rfl, h⟩

/-- Of all that is validated only this is needed for the bounds. -/
theorem FactorConfig.min_le_max_of_validate {c : FactorConfig} (h : c.validate = .ok ()) :
    c.min ≤ c.max := by
  refine Nat.le_of_not_lt fun hlt => ?_
  rw [validate, if_pos hlt] at h
  cases h

theorem ReplicationConfig.validate_factor {c : ReplicationConfig} (h : c.validate = .ok ()) :
    c.factor.validate = .ok () := by
  -- the four settings that have to be positive are checked first
  rw [validate] at h
  obtain ⟨-, -, h⟩ := exists_of_bind_eq_ok h
  obtain ⟨-, -, h⟩ := exists_of_bind_eq_ok h
  obtain ⟨-, -, h⟩ := exists_of_bind_eq_ok h
  obtain ⟨-, -, h⟩ := exists_of_bind_eq_ok h
  exact h

theorem NodeConfig.min_le_max_of_validate {c : NodeConfig} (h : c.validate = .ok ()) :
    c.replication.factor.min ≤ c.replication.factor.max := by
  rw [validate] at h
  obtain ⟨_, hreplication, -⟩ := exists_of_bind_eq_ok h
  exact FactorConfig.min_le_max_of_validate (ReplicationConfig.validate_factor hreplication)

/-! ### The factor that is wanted -/

/-- Moving a number into bounds that are in order cannot fail. -/
theorem clampNat_within {lo hi : Nat} (h : lo ≤ hi) (n : Nat) :
    ∃ k, clampNat n lo hi = .ok k ∧ lo ≤ k ∧ k ≤ hi := by
  refine ⟨_, if_neg (Nat.not_lt.mpr h), ?_⟩
  split <;> [skip; split] <;> omega

namespace FactorConfig

variable {c : FactorConfig}

/-- Whatever the tests say, the search ends within the bounds. -/
theorem search_within (h : c.min ≤ c.max) (enough : Nat → Bool) :
    ∃ k, c.search enough = .ok k ∧ c.min ≤ k ∧ k ≤ c.max := by
  rw [search]
  cases firstEnough enough 1 c.max with
  | some k => exact clampNat_within h k
  | none => exact ⟨c.max, rfl, h, Nat.le_refl _⟩

/-- What the factor for a cluster of `members` nodes may be. -/
structure Allows (c : FactorConfig) (members factor : Nat) : Prop where
  le_others : factor ≤ members - 1
  fixed : c.adaptive = false → factor = Nat.min c.base (members - 1)
  adapted : c.adaptive = true → ∃ k, c.min ≤ k ∧ k ≤ c.max ∧ factor = Nat.min k (members - 1)

/-- At any availability some factor is wanted, and one that is allowed once it is cut down to the
other members. -/
theorem wanted_allowed (h : c.min ≤ c.max) (availability : Float) :
    ∃ k, c.wanted availability = .ok k ∧
      ∀ members, c.Allows members (Nat.min k (members - 1)) := by
  rw [wanted]
  split
  case isTrue hadaptive =>
    obtain ⟨k, hk, hmin, hmax⟩ := search_within h (c.attains availability)
    refine ⟨k, hk, fun members => ⟨Nat.min_le_right _ _, fun hfixed => ?_, fun _ => ?_⟩⟩
    · rw [hadaptive] at hfixed
      cases hfixed
    · exact ⟨k, hmin, hmax, rfl⟩
  case isFalse hfixed =>
    exact ⟨c.base, rfl, fun members =>
      ⟨Nat.min_le_right _ _, fun _ => rfl, fun hadaptive => absurd hadaptive hfixed⟩⟩

end FactorConfig

namespace Estimator

/-! ### Calls with every check -/

/-- What an estimator is called for. -/
inductive Call
  | success
  | failure
  | recompute (members : Nat)

/-- Why a call could stop. -/
inductive Trap
  | crossedBounds (why : CrossedBounds)
  /-- A share of no results is taken. -/
  | noResults

/-- The share of successes among `samples` results. -/
def successRate (failures samples : Nat) : Except Trap Float :=
  if samples = 0 then .error .noResults
  else .ok (1 - Float.ofNat failures / Float.ofNat samples)

/-- Moves the estimate towards the share of successes. -/
def moveEstimate (e : Estimator) : Except Trap Estimator :=
  if e.samples < settled then .ok e
  else do
    let rate ← successRate e.failures e.samples
    let moved := { e with availability := e.availability * 0.7 + rate * 0.3 }
    return if e.samples < window then moved else { moved with samples := 0, failures := 0 }

/-- A call; a recomputation returns the factor. -/
def call (e : Estimator) : Call → Except Trap (Option Nat × Estimator)
  | .success => do
    return (none, ← { e with samples := e.samples + 1 }.moveEstimate)
  | .failure => do
    return (none, ← { e with samples := e.samples + 1, failures := e.failures + 1 }.moveEstimate)
  | .recompute members => do
    let wanted ← (e.config.wanted e.availability).mapError .crossedBounds
    let factor := Nat.min wanted (members - 1)
    return (some factor, { e with current := factor })

/-- All these calls, one after the other, and the factors that the recomputations return. -/
def run (e : Estimator) : List Call → Except Trap (List Nat × Estimator)
  | [] => .ok ([], e)
  | c :: calls => do
    let (returned?, e) ← e.call c
    let (returned, e) ← e.run calls
    return (returned?.toList ++ returned, e)

variable {e : Estimator}

/-- A share is taken of ten results at least, so that it is never one of nothing. -/
theorem moveEstimate_eq (e : Estimator) : e.moveEstimate = .ok e.update := by
  rw [moveEstimate, update]
  split
  case isTrue => rfl
  case isFalse hsettled =>
    have hsome : e.samples ≠ 0 := by
      rw [settled] at hsettled
      omega
    rw [successRate, if_neg hsome]
    rfl

theorem call_success (e : Estimator) : e.call .success = .ok (none, e.recordSuccess) := by
  rw [call, moveEstimate_eq]
  rfl

theorem call_failure (e : Estimator) : e.call .failure = .ok (none, e.recordFailure) := by
  rw [call, moveEstimate_eq]
  rfl

theorem call_recompute {k : Nat} (hk : e.config.wanted e.availability = .ok k) (members : Nat) :
    e.call (.recompute members) =
      .ok (some (Nat.min k (members - 1)), { e with current := Nat.min k (members - 1) }) := by
  rw [call, hk]
  rfl

/-- The factor in force is the wanted one, but no more than there are other members. -/
theorem recompute_eq {k : Nat} (hk : e.config.wanted e.availability = .ok k) (members : Nat) :
    e.recompute members = .ok { e with current := Nat.min k (members - 1) } := by
  rw [recompute, hk]
  rfl

/-! ### What every call keeps -/

/-- The bounds are in order, and so are the counts. -/
structure InOrder (e : Estimator) : Prop where
  bounds : e.config.min ≤ e.config.max
  failures_le : e.failures ≤ e.samples
  samples_lt : e.samples < window

/-- The counts stay below the hundredth result: with it they begin anew. -/
theorem inOrder_update (hbounds : e.config.min ≤ e.config.max)
    (hfailures : e.failures ≤ e.samples) : e.update.InOrder := by
  rw [update]
  split
  case isTrue hfew =>
    refine ⟨hbounds, hfailures, Nat.lt_trans hfew ?_⟩
    decide
  case isFalse =>
    dsimp only
    split
    case isTrue hlt => exact ⟨hbounds, hfailures, hlt⟩
    case isFalse => exact ⟨hbounds, Nat.le_refl 0, (by decide : 0 < window)⟩

/-- Results do not change what is configured. -/
theorem config_update (e : Estimator) : e.update.config = e.config := by
  rw [update]
  split
  · rfl
  · dsimp only
    split <;> rfl

/-- They change the estimate, not the factor in force. -/
theorem current_update (e : Estimator) : e.update.current = e.current := by
  rw [update]
  split
  · rfl
  · dsimp only
    split <;> rfl

/-- What a call does to an estimator that is in order. -/
structure Moves (e : Estimator) (returned? : Option Nat) (e' : Estimator) : Prop where
  inOrder : e'.InOrder
  config : e'.config = e.config
  current : e'.current = returned?.getD e.current

/-- An accepted configuration gives an estimator whose factor lies within the bounds. -/
theorem start_inOrder {c : FactorConfig} (h : c.min ≤ c.max) :
    ∃ e₀, start c = .ok e₀ ∧ e₀.config = c ∧ e₀.InOrder := by
  obtain ⟨k, hk, -⟩ := FactorConfig.wanted_allowed h c.initialAvailability
  refine ⟨⟨c, k, c.initialAvailability, 0, 0⟩, ?_, rfl, h, Nat.le_refl 0, ?_⟩
  · rw [start, hk]
    rfl
  · exact (by decide : 0 < window)

/-- The step lemma: no call stops, and each leaves the estimator in order. Only a recomputation
returns a factor, which is then the one in force. -/
theorem InOrder.call (h : e.InOrder) (c : Call) :
    ∃ returned? e', e.call c = .ok (returned?, e') ∧ e.Moves returned? e' := by
  cases c with
  | success =>
    refine ⟨none, e.recordSuccess, e.call_success, ?_, config_update _, current_update _⟩
    exact inOrder_update h.bounds (Nat.le_succ_of_le h.failures_le)
  | failure =>
    refine ⟨none, e.recordFailure, e.call_failure, ?_, config_update _, current_update _⟩
    exact inOrder_update h.bounds (Nat.succ_le_succ h.failures_le)
  | recompute members =>
    obtain ⟨k, hk, -⟩ := FactorConfig.wanted_allowed h.bounds e.availability
    exact ⟨_, _, call_recompute hk members, ⟨h.bounds, h.failures_le, h.samples_lt⟩, rfl, rfl⟩

/-- Any number of calls keeps the estimator in order; the factor in force is the one returned last.
-/
theorem InOrder.run (h : e.InOrder) (calls : List Call) :
    ∃ returned e', e.run calls = .ok (returned, e') ∧ e'.InOrder ∧ e'.config = e.config ∧
      e'.current = returned.getLastD e.current := by
  induction calls generalizing e with
  | nil => exact ⟨[], e, rfl, h, rfl, rfl⟩
  | cons c calls ih =>
    obtain ⟨returned?, e₁, hcall, hinOrder, hconfig, hcurrent⟩ := h.call c
    obtain ⟨returned, e₂, hrun, hinOrder', hconfig', hcurrent'⟩ := ih hinOrder
    refine ⟨returned?.toList ++ returned, e₂, ?_, hinOrder', hconfig'.trans hconfig, ?_⟩
    · rw [Estimator.run, hcall]
      simp only [bind, Except.bind, hrun]
      rfl
    · rw [hcurrent', hcurrent]
      cases returned? with
      | none => rfl
      | some factor => cases returned <;> rfl

/-- An estimator that can be called for anything, at any availability. -/
structure Callable (e : Estimator) : Prop where
  failures_le : e.failures ≤ e.samples
  samples_lt : e.samples < 100
  success : e.call .success = .ok (none, e.recordSuccess)
  failure : e.call .failure = .ok (none, e.recordFailure)
  recompute : ∀ availability members, ∃ factor e',
    { e with availability }.call (.recompute members) = .ok (some factor, e') ∧
      { e with availability }.recompute members = .ok e' ∧ e'.current = factor ∧
        e.config.Allows members factor

/-- As long as it is in order every call succeeds; no count can fall below zero. -/
theorem InOrder.callable (h : e.InOrder) : e.Callable where
  failures_le := h.failures_le
  samples_lt := h.samples_lt
  success := e.call_success
  failure := e.call_failure
  recompute availability members := by
    obtain ⟨k, hk, hallowed⟩ := FactorConfig.wanted_allowed h.bounds availability
    exact ⟨_, _, call_recompute hk members, recompute_eq hk members, rfl, hallowed members⟩

/-- In a configuration that a node accepts an estimator can be started, and after any calls, none of
which has stopped, it can be called for anything; the factor in force is the one that was returned
last. -/
theorem calls_within (c : NodeConfig) (h : c.validate = .ok ()) :
    (∀ enough, ∃ k, c.replication.factor.search enough = .ok k ∧
      c.replication.factor.min ≤ k ∧ k ≤ c.replication.factor.max) ∧
    ∃ e₀, start c.replication.factor = .ok e₀ ∧
      ∀ calls, ∃ returned e, e₀.run calls = .ok (returned, e) ∧ e.Callable ∧
        e.config = c.replication.factor ∧ e.current = returned.getLastD e₀.current := by
  have hbounds := NodeConfig.min_le_max_of_validate h
  obtain ⟨e₀, hstart, hconfig₀, hinOrder⟩ := start_inOrder hbounds
  refine ⟨FactorConfig.search_within hbounds, e₀, hstart, fun calls => ?_⟩
  obtain ⟨returned, e, hrun, hinOrder', hconfig, hcurrent⟩ := hinOrder.run calls
  exact ⟨returned, e, hrun, hinOrder'.callable, hconfig.trans hconfig₀, hcurrent⟩

/-- An adaptive factor of one to ten, after a recomputation, a hundred failures and a success. -/
theorem calls_within_failing :
    let c : NodeConfig := { replication := { factor := { min := 1, adaptive := true } } }
    let calls := .recompute 5 :: (List.replicate 100 .failure ++ [.success])
    c.validate = .ok () ∧ ∃ e₀, start c.replication.factor = .ok e₀ ∧
      ∃ returned e, e₀.run calls = .ok (returned, e) ∧ e.failures ≤ e.samples ∧
        e.samples < 100 ∧ e.current = returned.getLastD e₀.current ∧
        ∃ factor e', e.call (.recompute 4) = .ok (some factor, e') ∧ e'.current = factor ∧
          ∃ k, 1 ≤ k ∧ k ≤ 10 ∧ factor = Nat.min k 3 := by
  intro c calls
  have hvalid : c.validate = .ok () := by unfold c; rfl
  obtain ⟨-, e₀, hstart, hcalls⟩ := calls_within c hvalid
  obtain ⟨returned, e, hrun, hcallable, hconfig, hcurrent⟩ := hcalls calls
  obtain ⟨factor, e', hcall, -, hfactor, hallowed⟩ := hcallable.recompute e.availability 4
  rw [hconfig] at hallowed
  exact ⟨hvalid, e₀, hstart, returned, e, hrun, hcallable.failures_le, hcallable.samples_lt,
    hcurrent, factor, e', hcall, hfactor, hallowed.adapted rfl⟩

end Estimator

end DeltaMesh
