import DeltaMesh.Config.Replication
import DeltaMesh.Exchange.Reconcile
import DeltaMesh.Factor.Estimator
import Std.Data.ExtTreeSet

/-!
# The asking side of a node

A `Reconciler` is what a node keeps for its conversations with replicas: the replication factor,
counts of what was sent, and the locations that are being reconciled. A location is claimed before
its reconciliation begins and given back when that is over, so that it is never under way twice.

The state of the program's `ReplicationExecutor` with `new` and `replication_factor`,
`ExecutorStats`, `try_claim`, and the guard that gives a claimed location back.
-/

namespace DeltaMesh

/-- How much a node has sent, and what came of it. -/
structure SentTally where
  infos : Nat := 0
  copies : Nat := 0
  syncs : Nat := 0
  upToDate : Nat := 0
  failures : Nat := 0
  bytesSent : Nat := 0
  bytesSaved : Nat := 0
  /-- Locations that were handed over. -/
  pushes : Nat := 0
  deriving DecidableEq, Repr

/-- Counts what happens in a conversation. -/
def SentTally.record (t : SentTally) : Note → SentTally
  | .infoAnswered .same => { t with infos := t.infos + 1, upToDate := t.upToDate + 1 }
  | .infoAnswered _ => { t with infos := t.infos + 1 }
  | .copied bytes => { t with copies := t.copies + 1, bytesSent := t.bytesSent + bytes }
  | .synced _ payload saved =>
    { t with
      syncs := t.syncs + 1
      bytesSent := t.bytesSent + payload
      bytesSaved := t.bytesSaved + saved }
  | .requestFailed _ | .valueSettled => t
  | .valueFailed _ | .valueSkipped => { t with failures := t.failures + 1 }
  | .handedOver => { t with pushes := t.pushes + 1 }

/-- Takes note of values that reached a replica or did not. Only failures that may pass count
against the availability. -/
def Estimator.record (e : Estimator) : Note → Estimator
  | .valueSettled => e.recordSuccess
  | .valueFailed true => e.recordFailure
  | _ => e

/-- The asking side of a node. -/
structure Reconciler where
  config : ReplicationConfig
  estimator : Estimator
  tally : SentTally
  /-- The locations whose reconciliation is under way. -/
  inFlight : Std.ExtTreeSet Id compare

namespace Reconciler

/-- A node that has asked nothing yet. -/
def start (config : ReplicationConfig) : Except CrossedBounds Reconciler := do
  return ⟨config, ← Estimator.start config.factor, {}, ∅⟩

/-- The replication factor in force. -/
def factor (r : Reconciler) : Nat := r.estimator.current

/-- What the node brings to its conversations at a time. -/
def terms (r : Reconciler) (now : Nat) : Terms :=
  ⟨r.config.blockSize, r.config.maxValueSize, Int64.ofNat now⟩

/-- Counts what happens in a conversation. -/
def record (r : Reconciler) (what : Note) : Reconciler :=
  { r with tally := r.tally.record what, estimator := r.estimator.record what }

/-- Claims a location, unless its reconciliation is under way. -/
def claim? (r : Reconciler) (location : Id) : Option Reconciler :=
  if r.inFlight.contains location then none
  else some { r with inFlight := r.inFlight.insert location }

/-- Gives a location back. -/
def unclaim (r : Reconciler) (location : Id) : Reconciler :=
  { r with inFlight := r.inFlight.erase location }

/-- Puts the factor for a cluster of `members` nodes in force. -/
def recompute (r : Reconciler) (members : Nat) : Except CrossedBounds Reconciler := do
  return { r with estimator := ← r.estimator.recompute members }

end Reconciler

end DeltaMesh
