/-!
# How many replicas are wanted

A fixed factor, or the smallest number of replicas with which the chance that at least one can be
reached attains a target. The search goes through `1, …, max`; what it finds is moved into
`[min, max]`, and if nothing attains the target the answer is `max`.

The program's `ReplicationFactorConfig` with `fixed`, `adaptive` and `factor_for_availability`.
-/

namespace DeltaMesh

/-- How the replication factor is chosen. -/
structure FactorConfig where
  /-- The factor when it is not adapted. -/
  base : Nat := 6
  min : Nat := 2
  max : Nat := 10
  /-- The chance wanted that some replica can be reached. -/
  targetDurability : Float := 0.999
  /-- The share of requests that is assumed to succeed at first. -/
  initialAvailability : Float := 0.9
  adaptive : Bool := false

/-- No number lies in `[min, max]`. -/
structure CrossedBounds where
  min : Nat
  max : Nat
  deriving DecidableEq, Repr

/-- `n` moved into `[min, max]`. -/
def clampNat (n min max : Nat) : Except CrossedBounds Nat :=
  if max < min then .error ⟨min, max⟩
  else .ok (if n < min then min else if max < n then max else n)

/-- `x` to the `n`-th power; `done` collects the squares that the binary digits of `n` select. -/
def powerOnto (done x : Float) (n : Nat) : Float :=
  let done := if n % 2 = 1 then done * x else done
  if n / 2 = 0 then done else powerOnto done (x * x) (n / 2)
termination_by n
decreasing_by omega

/-- `x` to the `n`-th power, by repeated squaring. -/
def power (x : Float) (n : Nat) : Float := powerOnto 1 x n

/-- The number moved into `[0, 1]`. -/
def clampUnit (x : Float) : Float := if x < 0 then 0 else if 1 < x then 1 else x

/-- The first of the numbers `k, k + 1, …`, `count` of them, that is enough. -/
def firstEnough (enough : Nat → Bool) (k : Nat) : (count : Nat) → Option Nat
  | 0 => none
  | count + 1 => if enough k then some k else firstEnough enough (k + 1) count

namespace FactorConfig

/-- Whether `k` replicas, each of them reached with the chance `availability`, attain the
target. -/
def attains (c : FactorConfig) (availability : Float) (k : Nat) : Bool :=
  1 - power (clampUnit (1 - availability)) k ≥ c.targetDurability

/-- The smallest of `1, …, max` that is enough, moved into the bounds; `max` if none is. -/
def search (c : FactorConfig) (enough : Nat → Bool) : Except CrossedBounds Nat :=
  match firstEnough enough 1 c.max with
  | some k => clampNat k c.min c.max
  | none => .ok c.max

/-- How many replicas are wanted at an availability. -/
def wanted (c : FactorConfig) (availability : Float) : Except CrossedBounds Nat :=
  if c.adaptive then c.search (c.attains availability) else .ok c.base

end FactorConfig

end DeltaMesh
