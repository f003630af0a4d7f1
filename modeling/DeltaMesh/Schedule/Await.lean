import DeltaMesh.Schedule.Basic

/-!
# Waiting for a result

Something that a node is asked to do is done in turns as well, while the activities of the schedule
go on (`Schedule.await`). It has the first turn; later it goes on once no activity can, and the
computations of all end one after the other. No time passes meanwhile. If it can never go on
there is no result.

What is awaited are the program's `reconcile_location`, `tick`, `push_location`, `reconcile_value`
and `handle_event`.
-/

namespace DeltaMesh

namespace Schedule

variable {n : Nat}

/-- Carries something on until it is over, along with the activities. -/
def awaitWithin (turn : σ → Cluster n → Progress σ ρ × Cluster n) (waits : σ → List (Wait n)) :
    (turns : Nat) → Progress σ ρ → Schedule n → Option ρ × Schedule n
  | _, .over result, s => (some result, s)
  | 0, .underWay _, s => (none, s)
  | turns + 1, .underWay state, s =>
    match s.step? with
    | some s => awaitWithin turn waits turns (.underWay state) s
    | none =>
      if (waits state).any s.cluster.permits then
        let (progress, cluster) := turn state s.cluster
        awaitWithin turn waits turns progress { s with cluster }
      else
        match firstWork? (waits state ++ s.waits) with
        | some due => awaitWithin turn waits turns (.underWay state) (s.workUntil due)
        | none => (none, s)

/-- Does something to its end. -/
def await (s : Schedule n) (turn : σ → Cluster n → Progress σ ρ × Cluster n)
    (waits : σ → List (Wait n)) (state : σ) : Option ρ × Schedule n :=
  let (progress, cluster) := turn state s.cluster
  awaitWithin turn waits s.patience progress { s with cluster }

/-- Lets a node reconcile a location. -/
def reconcile (s : Schedule n) (i : Fin n) (location : Id) : Option LocationReport × Schedule n :=
  s.await (Reconciliation.turn i) Reconciliation.waits (.planned location)

/-- Lets a node tick. -/
def tick (s : Schedule n) (i : Fin n) :
    Except CrossedBounds (Option TickReport × Schedule n) := do
  let (t, cluster) ← Tick.begin i s.cluster
  return { s with cluster }.await (Tick.turn i) Tick.waits t

/-- Lets a node send a peer every value under a location. -/
def push (s : Schedule n) (i : Fin n) (location : Id) (peer : Peer) :
    Option (Except ReplicationError Nat) × Schedule n :=
  s.await (HandOver.turn i) HandOver.waits (.planned location peer .free)

/-- Lets a node hand a location over that it has lost. A delayed hand-over waits first. -/
def yieldTo (s : Schedule n) (i : Fin n) (location : Id) (owner : Peer) (delayed : Bool) :
    Option (Except ReplicationError Nat) × Schedule n :=
  let jitter := (s.cluster.reconciler i).config.maxPushJitter
  (if delayed then s.wait (min jitter 1) else s).push i location owner

/-- Lets a node bring one value to one replica. -/
def bring (s : Schedule n) (i : Fin n) (peer : Peer) (key : Key) (value : ByteArray) :
    Option ValueResult × Schedule n :=
  let x := (reconcileValue ((s.cluster.reconciler i).terms s.cluster.now) peer key value).run
  s.await (Talk.turn i) Talk.waits (.ofExchange x)

/-- Lets a node do what a change of its responsibility asks for. -/
def react (s : Schedule n) (i : Fin n) : Event → Schedule n
  | .gained location => (s.reconcile i location).2
  | .lost location newOwner delayed => (s.yieldTo i location newOwner delayed).2

end Schedule

end DeltaMesh
