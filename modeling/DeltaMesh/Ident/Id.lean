import DeltaMesh.Bytes.Hex
import DeltaMesh.Hash.Blake3
import DeltaMesh.Text.Literal

/-!
# Identifiers

An `Id` is a number of 160 bits. It names a location, a domain, a content or a peer; on the wire
it is twenty bytes, most significant first, and in text forty hexadecimal digits, so that the
order of the numbers is the order of the byte rows. `Id.distance` is the bitwise difference, and
smaller means closer. `Id.ofContent` is the content hash of a value.

Main statements: an id is recovered from its bytes (`ofBytes_toBytes`), and different ids are at
different distances from a third (`distance_left_inj`).

The program's `Id160` with `hash`, `from_u64`, `from_hex`, `to_hex` and `distance`.
-/

namespace DeltaMesh

/-- A number of 160 bits. -/
structure Id where
  value : BitVec 160
  deriving DecidableEq, Inhabited

namespace Id

/-- How many bytes an id has on the wire. -/
def width : Nat := 20

/-- The id of a small number. -/
def ofNat (n : Nat) : Id := ⟨BitVec.ofNat 160 n⟩

def zero : Id := ofNat 0

/-- The largest id. -/
def max : Id := ⟨BitVec.allOnes 160⟩

/-- The id that a row of twenty bytes denotes. -/
def ofBytes (bytes : List UInt8) : Id := ofNat (ofBE bytes)

/-- The twenty bytes of an id, most significant first. -/
def toBytes (i : Id) : List UInt8 := beDigits width i.value.toNat

@[simp] theorem length_toBytes (i : Id) : i.toBytes.length = width := by simp [toBytes]

theorem ofBytes_toBytes (i : Id) : ofBytes i.toBytes = i := by
  rcases i with ⟨v⟩
  have h := v.isLt
  simp only [ofBytes, toBytes, ofBE_beDigits, ofNat, width, mk.injEq]
  apply BitVec.eq_of_toNat_eq
  simp only [BitVec.toNat_ofNat, Nat.pow_eq]
  omega

theorem toBytes_ofBytes {bytes : List UInt8} (h : bytes.length = width) :
    (ofBytes bytes).toBytes = bytes := by
  have hlt := ofBE_lt bytes
  rw [h] at hlt
  have : ofBE bytes % 2 ^ 160 = ofBE bytes := Nat.mod_eq_of_lt (by simpa [width] using hlt)
  rw [toBytes, ofBytes, ofNat, BitVec.toNat_ofNat, this, ← h, beDigits_ofBE]

/-! ### Order and distance -/

instance : Ord Id := ⟨fun a b => compare a.value b.value⟩

instance : Std.TransOrd Id :=
  inferInstanceAs (Std.TransCmp (compareOn (α := Id) value))

instance : Std.LawfulEqOrd Id where
  eq_of_compare {a b} h := by
    have h : compare a.value b.value = .eq := h
    cases a; cases b
    simpa using h

instance : LT Id := ltOfOrd

instance : LE Id := leOfOrd

/-- The bitwise difference of two ids. -/
def distance (a b : Id) : Id := ⟨a.value ^^^ b.value⟩

theorem distance_left_inj {a b c : Id} : distance a c = distance b c ↔ a = b := by
  rcases a with ⟨a⟩; rcases b with ⟨b⟩
  simp [distance]

/-! ### Text -/

/-- The forty digits of an id. -/
def toHex (i : Id) : String := Hex.encode i.toBytes

/-- The first `n` digits of an id. -/
def shortHex (i : Id) (n : Nat) : String := (i.toHex.take n).toString

/-- How diagnostics show an id. -/
def describe (i : Id) : String := "Id160(" ++ i.shortHex 12 ++ ")"

/-- Why a text is no id. -/
inductive ParseError
  | notHex (text : String) (why : Hex.Fault)
  | wrongLength (text : String) (bytes : Nat)
  deriving DecidableEq

/-- The wording of a hexadecimal fault. -/
def hexFaultText : Hex.Fault → String
  | .oddLength => "Odd number of digits"
  | .notDigit byte index =>
    "Invalid character " ++ Text.latin1Literal byte ++ " at position " ++ toString index

def ParseError.message : ParseError → String
  | .notHex text why => "Invalid identifier: " ++ text ++ ": " ++ hexFaultText why
  | .wrongLength text bytes =>
    "Invalid identifier: " ++ text ++ ": expected 20 bytes, got " ++ toString bytes

/-- Reads forty digits of either case. -/
def parse (text : String) : Except ParseError Id :=
  match Hex.decode text.toUTF8.data.toList with
  | .error why => .error (.notHex text why)
  | .ok bytes =>
    if bytes.length = width then .ok (ofBytes bytes)
    else .error (.wrongLength text bytes.length)

/-! ### Hashes -/

/-- The content hash of a value: the first 160 bits of its BLAKE3 hash. -/
def ofContent (data : ByteArray) : Id := ofBytes ((Blake3.hash data).take width)

end Id

end DeltaMesh
