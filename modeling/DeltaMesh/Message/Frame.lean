import DeltaMesh.Message.Basic
import DeltaMesh.Wire.Payload

/-!
# Frames

A frame is a message as a row of bytes: a variant number and the fields of the variant. Reading a
frame ignores what follows the message. In a COPY the entries are a counted row of keys and
values; if a key occurs twice, the later value stays.

The program's `encode_frame` and `decode_frame`, for a `Request` and for a `Response`.
-/

namespace DeltaMesh

open Wire

/-! ### Requests -/

def putEntry (e : Key × ByteArray) : ByteArray := putKey e.1 ++ putBytes e.2

def readEntry : Reader (Key × ByteArray) := return (← Reader.key, ← Reader.bytes)

/-- The frame of a request. -/
def Request.frame : Request → ByteArray
  | .info key valueHash timestamp =>
    putVariant 0 ++ putKey key ++ putId valueHash ++ putI64 timestamp
  | .copy entries timestamp =>
    putVariant 1 ++ putItems putEntry entries.toList ++ putI64 timestamp
  | .sync key expectedHash timestamp delta =>
    putVariant 2 ++ putKey key ++ putId expectedHash ++ putI64 timestamp ++ putBytes delta

def Request.read : Reader Request := do
  match ← Reader.variant 3 with
  | 0 => return .info (← Reader.key) (← Reader.id) (← Reader.i64)
  | 1 =>
    let pairs ← Reader.items readEntry
    return .copy (.ofPairs pairs) (← Reader.i64)
  | _ =>
    let key ← Reader.key
    let expectedHash ← Reader.id
    let timestamp ← Reader.i64
    return .sync key expectedHash timestamp (← Reader.bytes)

/-- The request at the beginning of a frame. -/
def Request.ofFrame (frame : ByteArray) : Except CodecError Request :=
  (Request.read.decode frame).mapError .fields

/-! ### Responses -/

def Holding.number : Holding → Nat
  | same => 0
  | nothing => 1
  | other => 2

def Holding.read : Reader Holding := do
  match ← Reader.variant 3 with
  | 0 => return .same
  | 1 => return .nothing
  | _ => return .other

def SyncAck.number : SyncAck → Nat
  | applied => 0
  | unchanged => 1

def SyncAck.read : Reader SyncAck := do
  match ← Reader.variant 2 with
  | 0 => return .applied
  | _ => return .unchanged

/-- The frame of a response. -/
def Response.frame : Response → ByteArray
  | .info holding timestamp checksums =>
    putVariant 0 ++ putVariant holding.number ++ putI64 timestamp ++
      putOptional putBytes checksums
  | .copyAck stored => putVariant 1 ++ putU32 stored
  | .syncAck ack => putVariant 2 ++ putVariant ack.number
  | .failed reason => putVariant 3 ++ putText reason

def Response.read : Reader Response := do
  match ← Reader.variant 4 with
  | 0 =>
    let holding ← Holding.read
    let timestamp ← Reader.i64
    return .info holding timestamp (← Reader.optional Reader.bytes)
  | 1 => return .copyAck (← Reader.u32)
  | 2 => return .syncAck (← SyncAck.read)
  | _ => return .failed (← Reader.text)

/-- The response at the beginning of a frame. -/
def Response.ofFrame (frame : ByteArray) : Except CodecError Response :=
  (Response.read.decode frame).mapError .fields

end DeltaMesh
