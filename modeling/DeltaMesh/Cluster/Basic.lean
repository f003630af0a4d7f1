import DeltaMesh.Compute.WorkClock
import DeltaMesh.Meter.Basic
import DeltaMesh.Network.Basic
import DeltaMesh.Network.Script
import DeltaMesh.Reconciler.Basic

/-!
# Clusters

A `Cluster` is a number of nodes in one process. Node `i` serves requests through replica `i` of
the network and asks through reconciler `i`; one meter counts for all of them. Requests go over
the network, or to a script if there is one. What goes on in a cluster goes on in turns, and a
turn ends in a `Wait`.

The program has an executor, a handler and a `LocalTransport` for each node, and one recorder of
metrics for the process; here they stand side by side.
-/

namespace DeltaMesh

/-- `n` nodes and what connects them. -/
structure Cluster (n : Nat) where
  network : Network n
  reconcilers : Vector Reconciler n
  meter : Meter
  /-- Answers requests in place of the network. -/
  script : Option Script
  /-- The time in milliseconds. -/
  now : Nat
  /-- The time that computations take. -/
  work : WorkClock

/-- What has to happen before something can go on. -/
inductive Wait (n : Nat)
  /-- Nothing. -/
  | free
  /-- A computation has to end. -/
  | work (due : Nat)
  /-- A request has to get a lock at a replica. -/
  | lock (replica : Fin n) (task : Nat)
  /-- It has to be so late. -/
  | time (due : Nat)

/-- What a turn makes of something in the state `σ` that comes to a result of type `ρ`. -/
inductive Progress (σ ρ : Type)
  | underWay (state : σ)
  | over (result : ρ)

/-- Shows how many locations a node is responsible for, if its tracker has announced something
since `position`. -/
def Meter.observe (m : Meter) (position : Nat) (t : Tracker) : Meter :=
  if position < t.log.size then { m with responsibleLocations := some t.owned.size } else m

namespace Cluster

variable {n : Nat}

/-- Nodes that have done nothing yet. -/
def ofNodes (replicas : Vector Replica n) (reconcilers : Vector Reconciler n)
    (script : Option Script) : Cluster n :=
  ⟨.ofReplicas replicas, reconcilers, {}, script, 0, {}⟩

/-- The serving side of a node. -/
def replica (c : Cluster n) (i : Fin n) : Replica := c.network.replicas.get i

/-- The asking side of a node. -/
def reconciler (c : Cluster n) (i : Fin n) : Reconciler := c.reconcilers.get i

/-- Puts the asking side of a node into another state. -/
def setReconciler (c : Cluster n) (i : Fin n) (q : Reconciler) : Cluster n :=
  { c with reconcilers := c.reconcilers.set i q i.isLt }

/-- Does something to the serving side of a node. -/
def onReplica (c : Cluster n) (i : Fin n) (act : Replica → α × Replica) : α × Cluster n :=
  let position := (c.replica i).tracker.log.size
  let (result, r) := act (c.replica i)
  (result, { c with
    network := c.network.setReplica i r
    meter := c.meter.observe position r.tracker })

/-- Takes note of what happens in a conversation of a node. -/
def jot (c : Cluster n) (i : Fin n) (what : Note) : Cluster n :=
  { c.setReconciler i ((c.reconciler i).record what) with meter := c.meter.record what }

/-- Begins a computation; the answer is what has to be waited for. -/
def beginWork (c : Cluster n) (effort : Nat) : Wait n × Cluster n :=
  let (due, work) := c.work.begin effort
  (.work due, { c with work })

/-- Whether nothing keeps what waits like this from going on. -/
def permits (c : Cluster n) : Wait n → Bool
  | .free => true
  | .work due => due ≤ c.work.now
  | .lock i task => (c.replica i).locks.isNext task
  | .time due => due ≤ c.now

end Cluster

end DeltaMesh
