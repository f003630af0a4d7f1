import DeltaMesh.Cluster.HandOver
import DeltaMesh.Cluster.Tick

/-!
# What nodes do

A `Deed` is something that a node does on its own, in turns: it reconciles a location, ticks, hands
a location over, or runs. A node that runs ticks at regular times and reacts to changes of its
responsibility, as far as they are still kept for it. For each of these it begins a deed of its
own, so that no reconciliation holds the others up.

The program's `run`, `handle_event`, `on_responsibility_gained` and `on_responsibility_lost`. The
task that `run` spawns for an event or a tick is a deed.
-/

namespace DeltaMesh

/-- A node that runs. -/
structure Run (n : Nat) where
  node : Fin n
  /-- When the next tick falls due. -/
  nextTick : Nat
  /-- How many announcements of the tracker the node has seen. -/
  position : Nat

/-- Something that a node does. -/
inductive Deed (n : Nat)
  | reconcile (node : Fin n) (state : Reconciliation n)
  /-- A tick that has not begun. -/
  | beginTick (node : Fin n)
  | tick (node : Fin n) (state : Tick n)
  | handOver (node : Fin n) (state : HandOver n)
  | run (state : Run n)

namespace Run

variable {n : Nat}

/-- A node begins to run: it listens to its tracker from now on, and the first tick is due at
once. -/
def start (node : Fin n) (c : Cluster n) : Run n :=
  ⟨node, c.now, (c.replica node).tracker.log.size⟩

/-- The time from one tick to the next. If it is zero the node neither ticks nor reacts. -/
def interval (r : Run n) (c : Cluster n) : Nat := (c.reconciler r.node).config.tickInterval

/-- What a node that runs waits for: one of these is enough. -/
def waits (r : Run n) (c : Cluster n) : List (Wait n) :=
  if r.interval c = 0 then []
  else if r.position < (c.replica r.node).tracker.log.size then [.free]
  else [.time r.nextTick]

/-- What a node does about a change of its responsibility. -/
def reaction (node : Fin n) (c : Cluster n) : Event → Deed n
  | .gained location => .reconcile node (.planned location)
  | .lost location newOwner delayed =>
    .handOver node (.plan node location newOwner delayed c)

/-- Reacts to the changes since the last turn, and ticks if it is time to. -/
def turn (r : Run n) (c : Cluster n) : Run n × List (Deed n) :=
  if r.interval c = 0 then (r, [])
  else
    let tracker := (c.replica r.node).tracker
    let reactions := (tracker.heardSince r.position).events.map (reaction r.node c)
    let r := { r with position := tracker.log.size }
    if r.nextTick ≤ c.now then
      ({ r with nextTick := r.nextTick + r.interval c }, reactions ++ [.beginTick r.node])
    else (r, reactions)

end Run

/-- What is left of a deed after a turn, and the deeds that it has begun. -/
structure Aftermath (n : Nat) where
  rest : Option (Deed n)
  begun : List (Deed n) := []

/-- What is left of a deed with this progress. -/
def Progress.rest (build : σ → Deed n) : Progress σ ρ → Aftermath n
  | .underWay state => { rest := some (build state) }
  | .over _ => { rest := none }

namespace Deed

variable {n : Nat}

/-- What a deed waits for: one of these is enough. -/
def waits (c : Cluster n) : Deed n → List (Wait n)
  | reconcile _ state => state.waits
  | beginTick _ => [.free]
  | tick _ state => state.waits
  | handOver _ state => state.waits
  | run state => state.waits c

/-- Whether a deed can go on. -/
def canGoOn (c : Cluster n) (d : Deed n) : Bool := (d.waits c).any c.permits

/-- Gives a deed a turn. A tick whose bounds for the factor are crossed is given up. -/
def turn : Deed n → Cluster n → Aftermath n × Cluster n
  | reconcile node state, c =>
    let (progress, c) := state.turn node c
    (progress.rest (reconcile node), c)
  | beginTick node, c =>
    match Tick.begin node c with
    | .error _ => ({ rest := none }, c)
    | .ok (state, c) =>
      let (progress, c) := state.turn node c
      (progress.rest (tick node), c)
  | tick node state, c =>
    let (progress, c) := state.turn node c
    (progress.rest (tick node), c)
  | handOver node state, c =>
    let (progress, c) := state.turn node c
    (progress.rest (handOver node), c)
  | run state, c =>
    let (state, begun) := state.turn c
    (⟨some (run state), begun⟩, c)

/-- Breaks a deed off. -/
def breakOff : Deed n → Cluster n → Cluster n
  | reconcile node state, c => state.breakOff node c
  | tick node state, c => state.breakOff node c
  | handOver _ state, c => state.breakOff c
  | beginTick _, c | run _, c => c

end Deed

end DeltaMesh
