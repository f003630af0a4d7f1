import DeltaMesh.Message.ExchangeError
import DeltaMesh.Network.Error
import DeltaMesh.Peer.Basic

/-!
# Conversations with replicas

An `Exchange` is a conversation that a node leads: it asks peers and goes on as they answer, notes
what has happened, computes now and then while other conversations go on, and comes to a result.
What a conversation says is fixed; who answers, what becomes of the notes and in which order
several conversations proceed is left to the one who carries it out.

The program's `ReplicationError` with its texts and `is_transient`, and the executor's `send`. What
is noted is what the executor counts in `ExecutorStats` and in the metrics.
-/

namespace DeltaMesh

/-- Why a value could not be brought to a peer. -/
inductive ReplicationError
  | network (why : NetworkError)
  | protocol (why : ExchangeError)
  /-- A request for the value would carry `size` bytes. -/
  | tooLarge (key : Key) (size limit : Nat)

namespace ReplicationError

def message : ReplicationError → String
  | network why => "Network error: " ++ why.message
  | protocol why => "Protocol error: " ++ why.message
  | tooLarge key size limit =>
    key.toText ++ " needs " ++ toString size ++ " bytes on the wire, over the " ++
      toString limit ++ " byte limit"

/-- Whether another try may succeed. -/
def isTransient : ReplicationError → Bool
  | network _ => true
  | _ => false

end ReplicationError

/-- What happens in a conversation, for those who keep count. -/
inductive Note
  /-- A replica answered INFO. -/
  | infoAnswered (holding : Holding)
  /-- A replica stored values of `bytes` bytes. -/
  | copied (bytes : Nat)
  /-- A replica took a delta whose payload has `payload` bytes, `saved` fewer than the value. -/
  | synced (ack : SyncAck) (payload saved : Nat)
  /-- A request failed on the way or at the replica. -/
  | requestFailed (kind : RequestKind)
  /-- A replica is up to date with a value. -/
  | valueSettled
  /-- A value could not be brought to a replica. -/
  | valueFailed (transient : Bool)
  /-- A value was left out of a hand-over because of its size. -/
  | valueSkipped
  /-- A location was handed over. -/
  | handedOver
  deriving DecidableEq, Repr

/-- What comes back for a request. -/
abbrev Reply := Except NetworkError Response

/-- A conversation that comes to a result of type `α`. -/
inductive Exchange (α : Type)
  | done (result : α)
  | ask (peer : Peer) (request : Request) (next : Reply → Exchange α)
  | note (what : Note) (next : Exchange α)
  /-- Goes on after a computation that takes this effort. -/
  | compute (effort : Nat) (next : Exchange α)

namespace Exchange

/-- Continues a conversation with what depends on its result. -/
def andThen : Exchange α → (α → Exchange β) → Exchange β
  | done result, f => f result
  | ask peer request next, f => ask peer request fun reply => (next reply).andThen f
  | note what next, f => note what (next.andThen f)
  | compute effort next, f => compute effort (next.andThen f)

instance : Monad Exchange where
  pure := done
  bind := andThen

end Exchange

/-- A conversation that may fail. -/
abbrev Attempt := ExceptT ReplicationError Exchange

namespace Attempt

/-- Notes something. -/
def jot (what : Note) : Attempt Unit := .mk (.note what (.done (.ok ())))

/-- Computes something that takes this effort. -/
def compute (effort : Nat) : Attempt Unit := .mk (.compute effort (.done (.ok ())))

/-- Sends a request. A failure that the replica reports is a failure of the request. -/
def send (peer : Peer) (request : Request) : Attempt Response :=
  .mk (.ask peer request fun
    | .ok (.failed reason) =>
      .note (.requestFailed request.kind) (.done (.error (.protocol (.remote reason))))
    | .ok response => .done (.ok response)
    | .error why => .note (.requestFailed request.kind) (.done (.error (.network why))))

end Attempt

end DeltaMesh
