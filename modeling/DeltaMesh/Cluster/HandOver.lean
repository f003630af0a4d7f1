import DeltaMesh.Cluster.Talk
import DeltaMesh.Exchange.HandOver

/-!
# Handing a location over

A node hands a location over to its new owner in a single conversation. When the hand-over is
delayed, that conversation begins some time later, with the values that are stored by then.

The program's `on_responsibility_lost` with `push_jitter`, and `push_location` as it is carried
out.
-/

namespace DeltaMesh

/-- The hand-over of a location. -/
inductive HandOver (n : Nat)
  /-- It has not begun. -/
  | planned (location : Id) (owner : Peer) (wait : Wait n)
  | talking (talk : Talk n (Except ReplicationError Nat))

namespace HandOver

variable {n : Nat}

/-- Plans a hand-over. A delayed one waits before it begins. -/
def plan (i : Fin n) (location : Id) (owner : Peer) (delayed : Bool) (c : Cluster n) :
    HandOver n :=
  planned location owner
    (if delayed ∧ 0 < (c.reconciler i).config.maxPushJitter then .time (c.now + 1) else .free)

/-- What a hand-over waits for: one of these is enough. -/
def waits : HandOver n → List (Wait n)
  | planned _ _ wait => [wait]
  | talking talk => talk.waits

/-- Gives a hand-over of a node a turn. It begins with the values that are stored by then. -/
def turn (i : Fin n) (state : HandOver n) (c : Cluster n) :
    Progress (HandOver n) (Except ReplicationError Nat) × Cluster n :=
  let (talk, c) := match state with
    | planned location owner _ =>
      let values := (c.replica i).store.entries.under location
      c.resume i (.ofExchange (handOver ((c.reconciler i).terms c.now) owner values).run)
    | talking talk => c.resume i talk
  (talk.progress talking, c)

/-- Breaks a hand-over off. -/
def breakOff : HandOver n → Cluster n → Cluster n
  | planned .., c => c
  | talking talk, c => c.breakOff talk

end HandOver

end DeltaMesh
