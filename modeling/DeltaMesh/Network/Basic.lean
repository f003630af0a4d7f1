import DeltaMesh.Message.Frame
import DeltaMesh.Network.Error
import DeltaMesh.Replica.Service

/-!
# The network inside one process

A `Network` connects replicas that live in one process. A request becomes a frame, the replica
registered under the peer's id serves what it reads from the frame, and the response comes back as
a frame as well. Between `Network.dispatch` and `Network.takeBack` the request is a `Delivery` that
takes its turns at the replica. Requests to peers that are cut off or unknown fail. The log of
requests keeps every request that went out, whatever became of it.

The program's `LocalTransport` with `register`, `set_unreachable`, `request`, `sent`, `clear_sent`
and `stats`.
-/

namespace DeltaMesh

/-- What is known of a request once it has gone out. -/
structure SentRequest where
  peer : Id
  kind : RequestKind
  /-- The size of the frame. -/
  bytes : Nat
  deriving DecidableEq

/-- A request that a replica serves. -/
structure Delivery (n : Nat) where
  replica : Fin n
  /-- What stands for the request among the holders of locks. -/
  task : Nat
  kind : RequestKind
  /-- The size of the frame. -/
  bytes : Nat
  service : Service

/-- How much went over the network; only exchanges that were answered count as sent. -/
structure Traffic where
  bytesSent : Nat := 0
  bytesReceived : Nat := 0
  requestsSent : Nat := 0
  failures : Nat := 0
  deriving DecidableEq, Repr

/-- The connections between `n` replicas. -/
structure Network (n : Nat) where
  replicas : Vector Replica n
  /-- Which replica serves the requests to a peer. -/
  registered : Std.ExtTreeMap Id (Fin n) compare
  /-- The peers that are cut off. -/
  unreachable : Std.ExtTreeSet Id compare
  /-- The requests so far, latest first. -/
  sent : List SentRequest
  traffic : Traffic
  /-- The task that will stand for the next delivery. -/
  nextTask : Nat

namespace Network

variable {n : Nat}

/-- Registers a replica under the id of a peer. -/
def register (net : Network n) (peer : Id) (number : Fin n) : Network n :=
  { net with registered := net.registered.insert peer number }

/-- A network of replicas, each of which is registered under the id of its node. -/
def ofReplicas (replicas : Vector Replica n) : Network n :=
  (List.finRange n).foldl
    (fun net number => net.register (replicas.get number).directory.self.id number)
    ⟨replicas, ∅, ∅, [], {}, 0⟩

/-- Cuts a peer off, or connects it again. -/
def setUnreachable (net : Network n) (peer : Id) (cutOff : Bool) : Network n :=
  { net with
    unreachable := if cutOff then net.unreachable.insert peer else net.unreachable.erase peer }

/-- The requests so far, oldest first. -/
def sentInOrder (net : Network n) : List SentRequest := net.sent.reverse

/-- Forgets the requests so far. -/
def clearSent (net : Network n) : Network n := { net with sent := [] }

/-- Puts a replica into another state. -/
def setReplica (net : Network n) (number : Fin n) (r : Replica) : Network n :=
  { net with replicas := net.replicas.set number r number.isLt }

/-- Counts a request that failed. -/
def fail (net : Network n) : Network n :=
  { net with traffic := { net.traffic with failures := net.traffic.failures + 1 } }

/-- Counts a request that was answered. -/
def count (net : Network n) (sent received : Nat) : Network n :=
  { net with
    traffic := { net.traffic with
      bytesSent := net.traffic.bytesSent + sent
      bytesReceived := net.traffic.bytesReceived + received
      requestsSent := net.traffic.requestsSent + 1 } }

/-- What a frame that could not be read fails with. -/
def unreadable (why : Wire.CodecError) : NetworkError := .codec (ExchangeError.codec why).message

/-- Hands a frame over to a replica. -/
def handIn (net : Network n) (replica : Fin n) (frame : ByteArray) :
    Except NetworkError (Delivery n) × Network n :=
  match Request.ofFrame frame with
  | .error why => (.error (unreadable why), net)
  | .ok q =>
    (.ok ⟨replica, net.nextTask, q.kind, frame.size, .received q⟩,
      { net with nextTask := net.nextTask + 1 })

/-- Sends a request to a peer. -/
def dispatch (net : Network n) (peer : Peer) (q : Request) :
    Except NetworkError (Delivery n) × Network n :=
  let frame := q.frame
  let net := { net with sent := ⟨peer.id, q.kind, frame.size⟩ :: net.sent }
  if net.unreachable.contains peer.id then (.error (.unreachable peer.shortText), net.fail)
  else
    match net.registered[peer.id]? with
    | none => (.error (.connectionFailed ("unknown peer " ++ peer.shortText)), net.fail)
    | some replica => net.handIn replica frame

/-- Brings the response to a delivery back. -/
def takeBack (net : Network n) (d : Delivery n) (response : Response) :
    Except NetworkError Response × Network n :=
  let frame := response.frame
  ((Response.ofFrame frame).mapError unreadable, net.count d.bytes frame.size)

end Network

end DeltaMesh
