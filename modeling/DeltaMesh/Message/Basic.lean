import DeltaMesh.Store.Entries

/-!
# Messages

A node asks a replica whether it holds a value (INFO), hands it values (COPY) or tells it how to
rebuild one from what it holds (SYNC). The replica answers each request with one response.

The program's `Request` with `kind`, `RequestKind`, `InfoStatus` and `SyncAck` with `as_str`, and
`Response` with `describe`.
-/

namespace DeltaMesh

/-- The three requests, without what they carry. -/
inductive RequestKind
  | info
  | copy
  | sync
  deriving DecidableEq, Repr

namespace RequestKind

/-- The word for the request in counters. -/
def label : RequestKind → String
  | info => "info"
  | copy => "copy"
  | sync => "sync"

/-- The word for the request in messages. -/
def title : RequestKind → String
  | info => "INFO"
  | copy => "COPY"
  | sync => "SYNC"

end RequestKind

/-- What a node asks of a replica. -/
inductive Request
  /-- Does the replica hold the value with this content hash? -/
  | info (key : Key) (valueHash : Id) (timestamp : Int64)
  /-- Store these values. -/
  | copy (entries : Entries) (timestamp : Int64)
  /-- Rebuild the value with the hash `expectedHash` from the value under `key`; `delta` is the
  encoded delta. -/
  | sync (key : Key) (expectedHash : Id) (timestamp : Int64) (delta : ByteArray)

def Request.kind : Request → RequestKind
  | .info .. => .info
  | .copy .. => .copy
  | .sync .. => .sync

/-- What a replica holds under a key, compared with the value of the asking node. -/
inductive Holding
  /-- The same value. -/
  | same
  /-- No value. -/
  | nothing
  /-- Another value. -/
  | other
  deriving DecidableEq, Repr

def Holding.label : Holding → String
  | same => "ok"
  | nothing => "not_found"
  | other => "partial"

/-- What came of a request to rebuild a value. -/
inductive SyncAck
  /-- The value was rebuilt and stored. -/
  | applied
  /-- The replica held the value already. -/
  | unchanged
  deriving DecidableEq, Repr

def SyncAck.label : SyncAck → String
  | applied => "applied"
  | unchanged => "noop"

/-- What a replica answers. -/
inductive Response
  /-- What it holds; `timestamp` is the request's, and `checksums` is the encoded signature of
  another value. -/
  | info (holding : Holding) (timestamp : Int64) (checksums : Option ByteArray)
  /-- How many values it stored. -/
  | copyAck (stored : UInt32)
  | syncAck (ack : SyncAck)
  /-- Why it could not serve the request. -/
  | failed (reason : String)

/-- A response in a few words. -/
def Response.describe : Response → String
  | .info holding _ _ => "INFO " ++ holding.label
  | .copyAck stored => "COPY ack (" ++ toString stored.toNat ++ " stored)"
  | .syncAck ack => "SYNC ack (" ++ ack.label ++ ")"
  | .failed reason => "failure: " ++ reason

end DeltaMesh
