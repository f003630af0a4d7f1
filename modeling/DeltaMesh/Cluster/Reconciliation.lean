import DeltaMesh.Cluster.Talk
import DeltaMesh.Reconciler.Report

/-!
# Reconciling a location

A node reconciles a location by leading one conversation with each of its replicas, all at a time:
in a turn each conversation that can goes on. The location is claimed from the first turn until
the last conversation is over. A conversation that is never answered keeps it claimed.

The program's `reconcile_location`, between one suspension and the next.
-/

namespace DeltaMesh

/-- The reconciliation of a location. -/
inductive Reconciliation (n : Nat)
  /-- It has not begun. -/
  | planned (location : Id)
  /-- The location is claimed; these are the conversations with its replicas, closest first. -/
  | talking (location : Id) (talks : List (Talk n (List ValueResult)))

namespace Reconciliation

variable {n : Nat}

/-- The results of conversations, if all of them have come to an end. -/
def results? : List (Talk n (List ValueResult)) → Option (List ValueResult)
  | [] => some []
  | .finished results :: rest => (results ++ ·) <$> results? rest
  | _ => none

/-- What a reconciliation waits for: one of these is enough. -/
def waits : Reconciliation n → List (Wait n)
  | planned _ => [.free]
  | talking _ talks => talks.filterMap Talk.wait?

/-- Gives each conversation of a node that can go on a turn. -/
def turnTalks (i : Fin n) : List (Talk n (List ValueResult)) → Cluster n →
    List (Talk n (List ValueResult)) × Cluster n
  | [], c => ([], c)
  | talk :: rest, c =>
    let (talk, c) := c.resume i talk
    let (rest, c) := turnTalks i rest c
    (talk :: rest, c)

/-- Carries conversations on. When all of them are over the reconciliation is timed, and the
location is given back. -/
def carryOn (i : Fin n) (location : Id) (talks : List (Talk n (List ValueResult)))
    (c : Cluster n) : Progress (Reconciliation n) LocationReport × Cluster n :=
  let (talks, c) := turnTalks i talks c
  match results? talks with
  | none => (.underWay (.talking location talks), c)
  | some results =>
    (.over (.ofResults location talks.length results),
      { c.setReconciler i ((c.reconciler i).unclaim location) with
        meter := { c.meter with reconciliations := c.meter.reconciliations + 1 } })

/-- Claims a location and begins its conversations. There is nothing to do if the location is
claimed already, or without replicas or values; the report then says so. -/
def begin (i : Fin n) (location : Id) (c : Cluster n) :
    Progress (Reconciliation n) LocationReport × Cluster n :=
  match (c.reconciler i).claim? location with
  | none => (.over { location, skipped := true }, c)
  | some q =>
    let replicas := (c.replica i).directory.replicas location q.factor
    let values := (c.replica i).store.entries.under location
    if replicas.isEmpty ∨ values.isEmpty then
      (.over { location, replicas := replicas.length }, c)
    else
      carryOn i location
        (replicas.map fun p => .ofExchange (reconcileReplica (q.terms c.now) p values))
        (c.setReconciler i q)

/-- Gives a reconciliation of a node a turn. -/
def turn (i : Fin n) :
    Reconciliation n → Cluster n → Progress (Reconciliation n) LocationReport × Cluster n
  | planned location, c => begin i location c
  | talking location talks, c => carryOn i location talks c

/-- Breaks a reconciliation off and gives its location back. -/
def breakOff (i : Fin n) : Reconciliation n → Cluster n → Cluster n
  | planned _, c => c
  | talking location talks, c =>
    let c := talks.foldl Cluster.breakOff c
    c.setReconciler i ((c.reconciler i).unclaim location)

end Reconciliation

end DeltaMesh
