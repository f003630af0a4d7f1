import DeltaMesh.Cluster.Basic

/-!
# Conversations under way

A `Talk` is a conversation of a node in the course of a cluster's life. In a turn it goes on as
far as it can (`Cluster.resume`): requests are sent, served and answered at once, unless they have
to wait at the replica, and computations of either side are waited for.

How the program's `request` is carried out between two suspensions of its caller, and `send`, which
counts what came of it.
-/

namespace DeltaMesh

/-- A conversation that comes to a result of type `α`. -/
inductive Talk (n : Nat) (α : Type)
  /-- It goes on like this after a wait. -/
  | resting (wait : Wait n) (next : Exchange α)
  /-- A request waits at a replica. -/
  | asking (d : Delivery n) (wait : Wait n) (next : Reply → Exchange α)
  /-- A request is never answered. -/
  | silent
  | finished (result : α)

/-- What becomes of a request in a turn. -/
inductive Passage (n : Nat)
  | back (reply : Reply)
  | underWay (d : Delivery n) (wait : Wait n)
  /-- It is never answered. -/
  | lost

namespace Talk

variable {n : Nat}

/-- A conversation before its first turn. -/
def ofExchange (x : Exchange α) : Talk n α := resting .free x

/-- What a conversation waits for, unless it is over or never goes on. -/
def wait? : Talk n α → Option (Wait n)
  | resting wait _ => some wait
  | asking _ wait _ => some wait
  | silent | finished _ => none

end Talk

namespace Cluster

variable {n : Nat}

/-- Gives a request a turn at its replica. -/
def deliver (c : Cluster n) (d : Delivery n) : Passage n × Cluster n :=
  match c.onReplica d.replica (·.turn d.task d.service) with
  | (.answered response, c) =>
    let (reply, network) := c.network.takeBack d response
    (.back reply, { c with network, meter := c.meter.recordServed d.kind response })
  | (.computing effort rest, c) =>
    let (wait, c) := c.beginWork effort
    (.underWay { d with service := rest } wait, c)
  | (.locked rest, c) => (.underWay { d with service := rest } (.lock d.replica d.task), c)

/-- Sends a request over the network. -/
def sendOver (c : Cluster n) (peer : Peer) (q : Request) : Passage n × Cluster n :=
  match c.network.dispatch peer q with
  | (.error why, network) => (.back (.error why), { c with network })
  | (.ok d, network) => { c with network }.deliver d

/-- Sends a request to a peer. -/
def send : Cluster n → Peer → Request → Passage n × Cluster n
  | ⟨network, reconcilers, meter, some script, now, work⟩, peer, q =>
    let (reply?, script) := script.request peer q
    (match reply? with
      | some reply => .back reply
      | none => .lost, ⟨network, reconcilers, meter, some script, now, work⟩)
  | c, peer, q => c.sendOver peer q

/-- Carries a conversation of a node on until it has to wait or is over. -/
def converse (i : Fin n) : Exchange α → Cluster n → Talk n α × Cluster n
  | .done result, c => (.finished result, c)
  | .note what next, c => converse i next (c.jot i what)
  | .compute effort next, c =>
    let (wait, c) := c.beginWork effort
    (.resting wait next, c)
  | .ask peer q next, c =>
    match c.send peer q with
    | (.back reply, c) => converse i (next reply) c
    | (.underWay d wait, c) => (.asking d wait next, c)
    | (.lost, c) => (.silent, c)

/-- Gives a conversation of a node a turn, if it can go on. -/
def resume (c : Cluster n) (i : Fin n) : Talk n α → Talk n α × Cluster n
  | .resting wait next =>
    if c.permits wait then converse i next c else (.resting wait next, c)
  | .asking d wait next =>
    if c.permits wait then
      match c.deliver d with
      | (.back reply, c) => converse i (next reply) c
      | (.underWay d wait, c) => (.asking d wait next, c)
      | (.lost, c) => (.silent, c)
    else (.asking d wait next, c)
  | talk => (talk, c)

/-- Breaks a conversation off. -/
def breakOff (c : Cluster n) : Talk n α → Cluster n
  | .asking d _ _ => (c.onReplica d.replica fun r => ((), r.forget d.task)).2
  | _ => c

end Cluster

/-- What a conversation is to the one who leads no other. -/
def Talk.progress (build : Talk n α → σ) : Talk n α → Progress σ α
  | .finished result => .over result
  | talk => .underWay (build talk)

/-- Gives a conversation of a node a turn on its own. -/
def Talk.turn (i : Fin n) (talk : Talk n α) (c : Cluster n) :
    Progress (Talk n α) α × Cluster n :=
  let (talk, c) := c.resume i talk
  (talk.progress id, c)

/-- What a conversation waits for on its own. -/
def Talk.waits (talk : Talk n α) : List (Wait n) := talk.wait?.toList

end DeltaMesh
