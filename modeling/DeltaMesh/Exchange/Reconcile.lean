import DeltaMesh.Delta.Effort
import DeltaMesh.Delta.Scan
import DeltaMesh.Delta.Summary
import DeltaMesh.Exchange.Basic

/-!
# Bringing a replica up to date

`reconcileValue` is the conversation about one value: INFO first, and then, as the answer demands,
nothing, a COPY of the value or a SYNC with a delta against the replica's blocks.
`reconcileReplica` goes through the values of a location one after the other; what fails for one
value does not keep the others from being tried.

The program's `reconcile_value`, `sync_value`, `check_size`, `send_copy` and `reconcile_replica`.
-/

namespace DeltaMesh

/-- What the asking node brings to its conversations. -/
structure Terms where
  /-- The length of the blocks of a delta. -/
  blockSize : Nat
  /-- The largest value or delta that one request carries. -/
  limit : Nat
  /-- The time that requests carry. -/
  now : Int64

/-- What was done for one value at one replica. -/
inductive Outcome
  /-- The replica held the value. -/
  | upToDate
  /-- The replica held nothing and was sent the value. -/
  | copied (bytes : Nat)
  /-- The replica held another value and was sent a delta. -/
  | synced (summary : Summary) (ack : SyncAck)
  deriving DecidableEq

/-- What came of one value at one replica. -/
abbrev ValueResult := Except ReplicationError Outcome

/-- Refuses what is too large for one request. -/
def checkSize (t : Terms) (key : Key) (size : Nat) : Attempt Unit :=
  if t.limit < size then throw (.tooLarge key size t.limit) else pure ()

/-- Sends values to be stored; the result is how many the replica says it stored. -/
def sendCopy (t : Terms) (peer : Peer) (entries : Entries) : Attempt Nat := do
  match ← Attempt.send peer (.copy entries t.now) with
  | .copyAck stored =>
    Attempt.jot (.copied entries.totalBytes)
    return stored.toNat
  | other => throw (.protocol (.unexpected .copy other))

/-- Sends the delta between the blocks that `checksums` describes and a value. -/
def sendDelta (t : Terms) (replica : Peer) (key : Key) (value checksums : ByteArray) :
    Attempt Outcome := do
  let decoded := Wire.decodeSignature checksums
  Attempt.compute (Effort.diffing (decoded.toOption.getD []).length value.size t.blockSize)
  match decoded with
  | .error why => throw (.protocol (.codec why))
  | .ok signature =>
    let delta := diff signature value t.blockSize
    let payload := Wire.encodeDelta delta
    let summary := Summary.ofDelta delta value.size payload.size
    checkSize t key payload.size
    match ← Attempt.send replica (.sync key (.ofContent value) t.now payload) with
    | .syncAck ack =>
      Attempt.jot (.synced ack payload.size summary.bytesSaved)
      return .synced summary ack
    | other => throw (.protocol (.unexpected .sync other))

/-- Brings one value to one replica. -/
def reconcileValue (t : Terms) (replica : Peer) (key : Key) (value : ByteArray) :
    Attempt Outcome := do
  match ← Attempt.send replica (.info key (.ofContent value) t.now) with
  | .info holding _ checksums =>
    Attempt.jot (.infoAnswered holding)
    match holding, checksums with
    | .same, _ => return .upToDate
    | .nothing, _ =>
      checkSize t key value.size
      discard <| sendCopy t replica (.ofPairs [(key, value)])
      return .copied value.size
    | .other, none => throw (.protocol .missingChecksums)
    | .other, some checksums => sendDelta t replica key value checksums
  | other => throw (.protocol (.unexpected .info other))

/-- What a result says about the replica. -/
def ValueResult.note : ValueResult → Note
  | .ok _ => .valueSettled
  | .error why => .valueFailed why.isTransient

/-- Brings values to one replica, one after the other; `results` are those of the values before,
latest first. -/
def reconcileOnto (t : Terms) (replica : Peer) (results : List ValueResult) :
    List (Key × ByteArray) → Exchange (List ValueResult)
  | [] => .done results.reverse
  | (key, value) :: rest =>
    (reconcileValue t replica key value).run.andThen fun result =>
      .note (ValueResult.note result) (reconcileOnto t replica (result :: results) rest)

/-- Brings values to one replica; the results are in the order of the values. -/
def reconcileReplica (t : Terms) (replica : Peer) (values : List (Key × ByteArray)) :
    Exchange (List ValueResult) :=
  reconcileOnto t replica [] values

end DeltaMesh
