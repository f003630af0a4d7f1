import DeltaMesh.Bytes.Cursor
import DeltaMesh.Bytes.Digits
import DeltaMesh.Ident.Key
import DeltaMesh.Text.Utf8

/-!
# Reading and writing binary fields

All fields are little-endian and of fixed width; rows of bytes and texts are preceded by their
length in eight bytes, ids and keys are written without one. A `Reader` moves a cursor over the
input and either gives a value or a fault; it never looks behind the bytes it consumes, and what
follows the last field is not examined.

It stands for the serializer behind `encode_frame` and `encode_payload`, with its default settings.
-/

namespace DeltaMesh.Wire

/-- Why a row of bytes could not be read. -/
inductive Fault
  /-- The input ends before the field does. -/
  | endOfInput
  /-- The input ends inside a text. -/
  | endOfText
  /-- The variant number `found` is not below `count`. -/
  | noVariant (found count : Nat)
  /-- An optional field begins with neither zero nor one. -/
  | noOption (found : UInt8)
  /-- A text is not UTF-8. -/
  | notText (why : Utf8.Fault)
  deriving DecidableEq, Repr

def Fault.message : Fault → String
  | .endOfInput => "io error: unexpected end of file"
  | .endOfText => "io error: "
  | .noVariant found count =>
    "invalid value: integer `" ++ toString found ++ "`, expected variant index 0 <= i < " ++
      toString count
  | .noOption found => "tag for enum is not valid, found " ++ toString found.toNat
  | .notText why => "string is not valid utf8: " ++ why.message

/-- Reads a value at the cursor and moves it behind the value. -/
abbrev Reader := StateT Cursor (Except Fault)

namespace Reader

/-- The next `n` bytes. -/
def take (n : Nat) : Reader ByteArray := fun c =>
  match c.take? n with
  | some r => .ok r
  | none => .error .endOfInput

/-- The number in the next `width` bytes. -/
def number (width : Nat) : Reader Nat := do
  return ofLE (← take width).data.toList

def byte : Reader UInt8 := return (← number 1).toUInt8

def u32 : Reader UInt32 := return (← number 4).toUInt32

def u64 : Reader Nat := number 8

def i64 : Reader Int64 := return (← number 8).toUInt64.toInt64

/-- A variant number below `count`. -/
def variant (count : Nat) : Reader Nat := do
  let found ← number 4
  if found < count then return found else throw (.noVariant found count)

def id : Reader Id := return .ofBytes (← take Id.width).data.toList

def key : Reader Key := return ⟨← id, ← id, ← id⟩

/-- A row of bytes behind its length. -/
def bytes : Reader ByteArray := do take (← u64)

/-- A text behind its length. -/
def text : Reader String := do
  let length ← u64
  fun c =>
    match c.take? length with
    | none => .error .endOfText
    | some (raw, c) =>
      match String.fromUTF8? raw with
      | some s => .ok (s, c)
      | none => .error (.notText ((Utf8.fault? raw.data.toList).getD (.incomplete 0)))

/-- A value that may be absent, behind a byte that tells. -/
def optional (item : Reader α) : Reader (Option α) := do
  match ← byte with
  | 0 => return none
  | 1 => return some (← item)
  | found => throw (.noOption found)

/-- Adds the next `n` items to `done`. -/
def itemsInto (item : Reader α) : (n : Nat) → Array α → Reader (Array α)
  | 0, done => return done
  | n + 1, done => do
    let a ← item
    itemsInto item n (done.push a)

/-- A row of items behind its length. -/
def items (item : Reader α) : Reader (List α) := do
  return (← itemsInto item (← u64) #[]).toList

/-- Reads a value from the beginning of `bytes` and ignores what follows it. -/
def decode (r : Reader α) (bytes : ByteArray) : Except Fault α :=
  (r.run (.start bytes)).map (·.1)

end Reader

/-! ### Writing -/

/-- The `width` low bytes of a number. -/
def putNumber (width n : Nat) : ByteArray := (leDigits width n).toByteArray

def putByte (b : UInt8) : ByteArray := putNumber 1 b.toNat

def putU32 (n : UInt32) : ByteArray := putNumber 4 n.toNat

def putU64 (n : Nat) : ByteArray := putNumber 8 n

def putI64 (n : Int64) : ByteArray := putNumber 8 n.toUInt64.toNat

def putVariant (n : Nat) : ByteArray := putNumber 4 n

def putId (i : Id) : ByteArray := i.toBytes.toByteArray

def putKey (k : Key) : ByteArray := putId k.location ++ putId k.domain ++ putId k.content

def putBytes (b : ByteArray) : ByteArray := putU64 b.size ++ b

def putText (s : String) : ByteArray := putBytes s.toUTF8

def putOptional (put : α → ByteArray) : Option α → ByteArray
  | none => putByte 0
  | some a => putByte 1 ++ put a

def putItems (put : α → ByteArray) (items : List α) : ByteArray :=
  items.foldl (fun out a => out ++ put a) (putU64 items.length)

end DeltaMesh.Wire
