import DeltaMesh.Delta.Instruction
import DeltaMesh.Delta.Signature
import DeltaMesh.Lz4.Block
import DeltaMesh.Wire.Field

/-!
# Payloads

Signatures and deltas travel inside messages as payloads: a tag byte, then the list, either as it
is or, behind its length in four bytes, as an LZ4 block. The block is chosen only for lists of
more than `compressFrom` bytes, and only if it makes the list shorter. A payload that announces
more than `maxInflated` bytes is refused before anything is expanded.

The program's `encode_payload` and `decode_payload`, and `encode_checksums`, `decode_checksums`,
`encode_instructions` and `decode_instructions`, which call them.
-/

namespace DeltaMesh.Wire

/-- Why a payload or a frame could not be read. -/
inductive CodecError
  /-- The fields are malformed. -/
  | fields (why : Fault)
  /-- There is no tag. -/
  | emptyPayload
  /-- The tag announces a block, but its length is cut off. -/
  | truncatedPayload
  /-- The block announces `size` bytes, more than any payload may have. -/
  | oversizedPayload (size : Nat)
  /-- The block is malformed. -/
  | block (why : Lz4.Fault)
  | unknownTag (tag : UInt8)
  deriving DecidableEq, Repr

def CodecError.message : CodecError → String
  | .fields why => why.message
  | .emptyPayload => "empty payload"
  | .truncatedPayload => "truncated compressed payload"
  | .oversizedPayload size => "payload of " ++ toString size ++ " bytes exceeds limit"
  | .block why => "decompression failed: " ++ why.message
  | .unknownTag tag => "unknown payload tag " ++ toString tag.toNat

/-- Lists of up to this many bytes are never compressed. -/
def compressFrom : Nat := 1024

/-- No payload expands to more bytes than this. -/
def maxInflated : Nat := 64 * 1024 * 1024

def tagPlain : UInt8 := 0

def tagBlock : UInt8 := 1

/-- The compressed form of a list: its length and its block. -/
def deflated (raw : ByteArray) : ByteArray := putNumber 4 raw.size ++ Lz4.compress raw

/-- The payload of a list that is written as `raw`. -/
def payload (raw : ByteArray) : ByteArray :=
  let plain := putByte tagPlain ++ raw
  if compressFrom < raw.size then
    let small := deflated raw
    if small.size < raw.size then putByte tagBlock ++ small else plain
  else plain

/-- The list of a payload, as bytes. -/
def openPayload (p : ByteArray) : Except CodecError ByteArray :=
  match (Cursor.start p).take? 1 with
  | none => .error .emptyPayload
  | some (tag, body) =>
    let tag := (ofLE tag.data.toList).toUInt8
    if tag = tagPlain then .ok (p.extract 1 p.size)
    else if tag = tagBlock then
      match body.take? 4 with
      | none => .error .truncatedPayload
      | some (size, _) =>
        let size := ofLE size.data.toList
        if maxInflated < size then .error (.oversizedPayload size)
        else (Lz4.expand (p.extract 5 p.size) size).mapError .block
    else .error (.unknownTag tag)

/-- Reads the list in a payload. -/
def readPayload (r : Reader α) (p : ByteArray) : Except CodecError α := do
  (r.decode (← openPayload p)).mapError .fields

/-! ### Signatures -/

def putBlockSum (b : BlockSum) : ByteArray :=
  putU32 b.weak ++ (StrongHash.toBytes b.strong).toByteArray

def Reader.blockSum : Reader BlockSum :=
  return ⟨← u32, .ofBytes (← take strongWidth).data.toList⟩

/-- The fields of a signature. -/
def putSignature (s : Signature) : ByteArray := putItems putBlockSum s

def encodeSignature (s : Signature) : ByteArray := payload (putSignature s)

def decodeSignature (p : ByteArray) : Except CodecError Signature :=
  readPayload (.items .blockSum) p

/-! ### Deltas -/

def putInstruction : Instruction → ByteArray
  | .reference index => putVariant 0 ++ putU32 index
  | .literal bytes => putVariant 1 ++ putBytes bytes

def Reader.instruction : Reader Instruction := do
  match ← variant 2 with
  | 0 => return .reference (← u32)
  | _ => return .literal (← bytes)

/-- The fields of a delta. -/
def putDelta (d : Delta) : ByteArray := putItems putInstruction d

def encodeDelta (d : Delta) : ByteArray := payload (putDelta d)

def decodeDelta (p : ByteArray) : Except CodecError Delta := readPayload (.items .instruction) p

end DeltaMesh.Wire
