import DeltaMesh.Factor.Config

/-!
# The replication factor over time

An `Estimator` watches how many requests to replicas succeed. From the tenth one on, each result
moves the estimated availability towards the share of successes; after the hundredth the counts
begin anew. The factor itself changes only when it is recomputed, and is then at most the number
of other members.

The program's `ReplicationFactorEstimator` with `new`, `record_success`, `record_failure`,
`update_availability`, `recompute` and `current`.
-/

namespace DeltaMesh

/-- What is known of the replicas' availability, and the factor in force. -/
structure Estimator where
  config : FactorConfig
  /-- The factor in force. -/
  current : Nat
  availability : Float
  /-- How many results were counted. -/
  samples : Nat
  /-- How many of them were failures. -/
  failures : Nat

namespace Estimator

/-- The estimator before any result. -/
def start (c : FactorConfig) : Except CrossedBounds Estimator := do
  return ⟨c, ← c.wanted c.initialAvailability, c.initialAvailability, 0, 0⟩

/-- From so many results on the estimate moves. -/
def settled : Nat := 10

/-- After so many results the counts begin anew. -/
def window : Nat := 100

/-- Moves the estimate towards the share of successes. -/
def update (e : Estimator) : Estimator :=
  if e.samples < settled then e
  else
    let rate := 1 - Float.ofNat e.failures / Float.ofNat e.samples
    let moved := { e with availability := e.availability * 0.7 + rate * 0.3 }
    if e.samples < window then moved else { moved with samples := 0, failures := 0 }

/-- A request to a replica succeeded. -/
def recordSuccess (e : Estimator) : Estimator := { e with samples := e.samples + 1 }.update

/-- A request to a replica failed on the way. -/
def recordFailure (e : Estimator) : Estimator :=
  { e with samples := e.samples + 1, failures := e.failures + 1 }.update

/-- Puts the factor for a cluster of `members` nodes in force. -/
def recompute (e : Estimator) (members : Nat) : Except CrossedBounds Estimator := do
  return { e with current := min (← e.config.wanted e.availability) (members - 1) }

end Estimator

end DeltaMesh
