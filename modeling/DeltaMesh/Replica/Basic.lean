import DeltaMesh.Responsibility.Tracker
import DeltaMesh.Store.Basic
import DeltaMesh.Store.KeyLocks

/-!
# Replicas

The serving side of a node: its values, the locations it is responsible for, and the locks that
let writers of one key take turns. Values are written while the key's lock is held, and the
tracker hears of each location that was written to.

The state of the program's `SyncHandler` with `HandlerStats`, its storage, its tracker and its
directory of peers, and the section that `handle_copy` and `handle_sync` run under a key's lock.
-/

namespace DeltaMesh

/-- How many requests were served, by outcome. -/
structure ServedTally where
  infos : Nat := 0
  copies : Nat := 0
  /-- SYNC requests that stored a value. -/
  syncsApplied : Nat := 0
  /-- SYNC requests that found the value in place. -/
  syncsUnchanged : Nat := 0
  failures : Nat := 0
  deriving DecidableEq, Repr

/-- A node that serves requests; `blockSize` is the length of the blocks it cuts values into. -/
structure Replica where
  directory : Directory
  store : Store
  tracker : Tracker
  locks : KeyLocks Nat
  blockSize : Nat
  served : ServedTally

namespace Replica

/-- A replica that has served nothing yet. -/
def ofStore (directory : Directory) (store : Store) (blockSize : Nat) : Replica :=
  ⟨directory, store, .empty, .empty, blockSize, {}⟩

/-- Stores a value unless the write fails. -/
def write (r : Replica) (key : Key) (value : ByteArray) : Except StorageError Unit × Replica :=
  let (result, store) := r.store.put key value
  (result, { r with store })

/-- Tells the tracker that values under a location were written. -/
def notify (r : Replica) (location : Id) : Replica :=
  { r with tracker := r.tracker.notify r.directory location }

/-- Stores a value of the node itself and tells the tracker. -/
def putLocal (r : Replica) (key : Key) (value : ByteArray) :
    Except StorageError Unit × Replica :=
  match r.write key value with
  | (.ok (), r) => (.ok (), r.notify key.location)
  | (.error why, r) => (.error why, r)

/-- Gets to know a peer; the answer is whether its id is new. -/
def addPeer (r : Replica) (p : Peer) : Bool × Replica :=
  let (new, directory) := r.directory.add p
  (new, { r with directory })

/-- Forgets the peer with this id; the answer is the peer. -/
def removePeer (r : Replica) (id : Id) : Option Peer × Replica :=
  let (p, directory) := r.directory.remove id
  (p, { r with directory })

/-- Looks at locations again after the membership has changed. -/
def reevaluate (r : Replica) (locations : List Id) : Replica :=
  { r with tracker := r.tracker.reevaluate r.directory locations }

/-- Carries `act` out while `task` holds the lock of `key`. -/
def withLock (r : Replica) (task : Nat) (key : Key) (act : Replica → α × Replica) : α × Replica :=
  let waiting := r.locks.fetch task key
  let (result, r) := act { r with locks := (waiting.acquire? task).getD waiting }
  (result, { r with locks := r.locks.release task })

/-- Drops the locks that no task refers to. -/
def pruneLocks (r : Replica) : Replica := { r with locks := r.locks.prune }

end Replica

end DeltaMesh
