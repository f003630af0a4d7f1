import DeltaMesh.Delta.Rebuild
import DeltaMesh.Message.ExchangeError
import DeltaMesh.Replica.Basic

/-!
# Serving requests

A replica serves each request on its own. INFO only reads. COPY stores the values in key order
up to the first write that fails; the tracker hears of the locations of the values stored, also
after a failure. SYNC stores a value only if the delta rebuilds exactly the announced one from the
value that the replica holds; `syncVerdict` is that decision, free of any state. A failure becomes
a response that names it. `Replica.serve` is what becomes of a request while no other is served.

The program's `handle`, `handle_info`, `handle_copy` and `handle_sync` of the `SyncHandler`.
-/

namespace DeltaMesh

/-- The answer to INFO at a replica that holds `stored?`: nothing, the value asked for, or another
value together with its signature. -/
def infoAnswer (stored? : Option ByteArray) (valueHash : Id) (timestamp : Int64)
    (blockSize : Nat) : Response :=
  match stored? with
  | none => .info .nothing timestamp none
  | some value =>
    if Id.ofContent value = valueHash then .info .same timestamp none
    else .info .other timestamp (some (Wire.encodeSignature (.ofValue value blockSize)))

/-- What a SYNC does at a replica that holds `stored?`: store a value, or nothing if that value is
there already. Without a value the delta is applied to the empty one. Room plays no part: on a value
whose length thirty-two bits can count, no delta that fits into a payload takes too much of it. -/
def syncVerdict (stored? : Option ByteArray) (key : Key) (expectedHash : Id) (delta : ByteArray)
    (blockSize : Nat) : Except ExchangeError (Option ByteArray) :=
  if stored?.map Id.ofContent = some expectedHash then .ok none
  else do
    let delta ← (Wire.decodeDelta delta).mapError .codec
    let value ← (rebuild (stored?.getD .empty) delta blockSize).mapError .rebuild
    if Id.ofContent value = expectedHash then .ok (some value) else .error (.hashMismatch key)

namespace Replica

/-- Answers INFO. -/
def answerInfo (r : Replica) (key : Key) (valueHash : Id) (timestamp : Int64) :
    Response × Replica :=
  (infoAnswer (r.store.get? key) valueHash timestamp r.blockSize,
    { r with served := { r.served with infos := r.served.infos + 1 } })

/-- Stores entries up to the first write that fails: the locations of the values stored, one for
each, and the failure. -/
def storeEntries (task : Nat) :
    List (Key × ByteArray) → Replica → (List Id × Option StorageError) × Replica
  | [], r => (([], none), r)
  | (key, value) :: rest, r =>
    match r.withLock task key (·.write key value) with
    | (.error why, r) => (([], some why), r)
    | (.ok (), r) =>
      let ((locations, failure), r) := storeEntries task rest r
      ((key.location :: locations, failure), r)

/-- The different ones of a list of locations, in ascending order. -/
def distinctLocations (locations : List Id) : List Id :=
  (Std.ExtTreeSet.ofList locations compare).toList

/-- Counts a COPY that has come in. -/
def countCopy (r : Replica) : Replica :=
  { r with served := { r.served with copies := r.served.copies + 1 } }

/-- Ends a COPY that stored one value under each of the `locations` before it met a failure, if it
did. -/
def settleCopy (r : Replica) (locations : List Id) (failure : Option StorageError) :
    Except ExchangeError Response × Replica :=
  let r := (distinctLocations locations).foldl notify r
  (match failure with
    | some why => .error (.storage why)
    | none => .ok (.copyAck locations.length.toUInt32), r)

/-- Answers COPY. -/
def answerCopy (r : Replica) (task : Nat) (entries : Entries) :
    Except ExchangeError Response × Replica :=
  let ((locations, failure), r) := storeEntries task entries.toList r.countCopy
  r.settleCopy locations failure

/-- Carries out what was decided about a SYNC; the lock of the key is held. -/
def settleSync (r : Replica) (key : Key) :
    Except ExchangeError (Option ByteArray) → Except ExchangeError Response × Replica
  | .error why => (.error why, r)
  | .ok none =>
    (.ok (.syncAck .unchanged),
      { r with served := { r.served with syncsUnchanged := r.served.syncsUnchanged + 1 } })
  | .ok (some value) =>
    match r.putLocal key value with
    | (.error why, r) => (.error (.storage why), r)
    | (.ok (), r) =>
      (.ok (.syncAck .applied),
        { r with served := { r.served with syncsApplied := r.served.syncsApplied + 1 } })

/-- Decides about a SYNC and carries it out; the lock of the key is held. -/
def applySync (r : Replica) (key : Key) (expectedHash : Id) (delta : ByteArray) :
    Except ExchangeError Response × Replica :=
  r.settleSync key (syncVerdict (r.store.get? key) key expectedHash delta r.blockSize)

/-- Answers SYNC. -/
def answerSync (r : Replica) (task : Nat) (key : Key) (expectedHash : Id) (delta : ByteArray) :
    Except ExchangeError Response × Replica :=
  r.withLock task key (·.applySync key expectedHash delta)

/-- The response to a request that was carried out or failed. -/
def respond : Except ExchangeError Response × Replica → Response × Replica
  | (.ok response, r) => (response, r)
  | (.error why, r) =>
    (.failed why.message, { r with served := { r.served with failures := r.served.failures + 1 } })

/-- Serves a request as `task`. After a request that writes, the locks left over are dropped. -/
def serve (r : Replica) (task : Nat) : Request → Response × Replica
  | .info key valueHash timestamp => r.answerInfo key valueHash timestamp
  | .copy entries _ =>
    let (result, r) := r.answerCopy task entries
    respond (result, r.pruneLocks)
  | .sync key expectedHash _ delta =>
    let (result, r) := r.answerSync task key expectedHash delta
    respond (result, r.pruneLocks)

end Replica

end DeltaMesh
