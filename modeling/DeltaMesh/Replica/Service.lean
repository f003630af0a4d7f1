import DeltaMesh.Delta.Effort
import DeltaMesh.Replica.Serve

/-!
# Serving several requests at a time

Requests that come in while others are served take turns. A turn goes on until the request is
answered, or waits for a lock that another one holds, or leaves something to compute: the
signature in the answer to INFO, or the value that a SYNC rebuilds. A SYNC keeps the lock of its
key while it computes, so the value it started from is still there when it stores the new one.
With nothing else under way the turns add up to `Replica.serve`.

The same `handle`, `handle_info`, `handle_copy` and `handle_sync`, from one suspension to the next.
-/

namespace DeltaMesh

/-- How far a request has come. -/
inductive Service
  | received (request : Request)
  /-- The signature in this answer to INFO is being computed. -/
  | signing (answer : Response)
  /-- A COPY waits for the lock of the first of these entries; it has stored one value under each
  of the `locations`. -/
  | storing (entries : List (Key × ByteArray)) (locations : List Id)
  /-- A SYNC waits for the lock of its key. -/
  | entering (key : Key) (expectedHash : Id) (delta : ByteArray)
  /-- A SYNC holds the lock of its key, and this is what its computation comes to. -/
  | rebuilding (key : Key) (verdict : Except ExchangeError (Option ByteArray))

/-- What ends a turn of a request. -/
inductive Service.Stop
  | answered (response : Response)
  /-- A computation that takes this effort. -/
  | computing (effort : Nat) (rest : Service)
  /-- A lock that another request holds. -/
  | locked (rest : Service)

namespace Replica

/-- Lets a task ask for the lock of the first entry to come. -/
def askFor (r : Replica) (task : Nat) : List (Key × ByteArray) → Replica
  | [] => r
  | (key, _) :: _ => { r with locks := r.locks.fetch task key }

/-- Gives the lock that a task holds back. -/
def giveBack (r : Replica) (task : Nat) : Replica := { r with locks := r.locks.release task }

/-- Ends a request that writes. -/
def close : Except ExchangeError Response × Replica → Service.Stop × Replica
  | (result, r) =>
    let (response, r) := respond (result, r.pruneLocks)
    (.answered response, r)

/-- Stores entries as long as the locks are free. The lock of the first one was asked for. -/
def turnCopy (task : Nat) (locations : List Id) :
    List (Key × ByteArray) → Replica → Service.Stop × Replica
  | [], r => close (r.settleCopy locations none)
  | (key, value) :: rest, r =>
    match r.locks.acquireInTurn? task with
    | none => (.locked (.storing ((key, value) :: rest) locations), r)
    | some locks =>
      match { r with locks }.write key value with
      | (.error why, r) => close ((r.giveBack task).settleCopy locations (some why))
      | (.ok (), r) =>
        turnCopy task (key.location :: locations) rest ((r.giveBack task).askFor task rest)

/-- Begins a SYNC if the lock of its key, which was asked for, is free. A value that is in place
already is found without computing. -/
def turnSync (r : Replica) (task : Nat) (key : Key) (expectedHash : Id) (delta : ByteArray) :
    Service.Stop × Replica :=
  match r.locks.acquireInTurn? task with
  | none => (.locked (.entering key expectedHash delta), r)
  | some locks =>
    let r := { r with locks }
    let stored? := r.store.get? key
    match syncVerdict stored? key expectedHash delta r.blockSize with
    | .ok none =>
      let (result, r) := r.settleSync key (.ok none)
      close (result, r.giveBack task)
    | verdict =>
      (.computing (Effort.rebuilding delta.size (stored?.getD .empty).size)
        (.rebuilding key verdict), r)

/-- Gives a request a turn; `task` stands for it among the holders of locks. -/
def turn (r : Replica) (task : Nat) : Service → Service.Stop × Replica
  | .received (.info key valueHash timestamp) =>
    let (answer, counted) := r.answerInfo key valueHash timestamp
    (match answer, r.store.get? key with
      | .info .other _ _, some value =>
        .computing (Effort.signing value.size r.blockSize) (.signing answer)
      | answer, _ => .answered answer, counted)
  | .received (.copy entries _) =>
    turnCopy task [] entries.toList (r.countCopy.askFor task entries.toList)
  | .received (.sync key expectedHash _ delta) =>
    { r with locks := r.locks.fetch task key }.turnSync task key expectedHash delta
  | .signing answer => (.answered answer, r)
  | .storing entries locations => turnCopy task locations entries r
  | .entering key expectedHash delta => r.turnSync task key expectedHash delta
  | .rebuilding key verdict =>
    let (result, r) := r.settleSync key verdict
    close (result, r.giveBack task)

/-- Forgets a request that no one waits for any more. -/
def forget (r : Replica) (task : Nat) : Replica := { r with locks := r.locks.drop task }

end Replica

end DeltaMesh
