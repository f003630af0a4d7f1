import DeltaMesh.Bytes.Digits
import DeltaMesh.Delta.Block
import DeltaMesh.Delta.Weak
import DeltaMesh.Hash.Blake3
import Std.Data.HashMap

/-!
# Signatures

A signature lists the checksums of a value's blocks: the rolling weak checksum, which finds
candidates, and a strong hash of 128 bits, which decides. An `Index` groups a signature by weak
checksum, so that a window is looked up without walking the list; it answers the lowest block
with both checksums (`Index.findIn`).

The program's `ChecksumBlock`, `strong_hash`, `compute_checksums` and `ChecksumLookup` with `find`.
-/

namespace DeltaMesh

/-- The first 128 bits of a BLAKE3 hash. -/
abbrev StrongHash := BitVec 128

/-- How many bytes a strong hash has on the wire. -/
def strongWidth : Nat := 16

/-- The strong hash that a row of sixteen bytes denotes. -/
def StrongHash.ofBytes (bytes : List UInt8) : StrongHash := BitVec.ofNat 128 (ofBE bytes)

/-- The sixteen bytes of a strong hash, most significant first. -/
def StrongHash.toBytes (h : StrongHash) : List UInt8 := beDigits strongWidth h.toNat

@[simp] theorem StrongHash.length_toBytes (h : StrongHash) :
    (StrongHash.toBytes h).length = strongWidth := by simp [StrongHash.toBytes]

theorem StrongHash.ofBytes_toBytes (h : StrongHash) :
    StrongHash.ofBytes (StrongHash.toBytes h) = h := by
  have hlt := h.isLt
  apply BitVec.eq_of_toNat_eq
  simp only [ofBytes, toBytes, ofBE_beDigits, strongWidth, BitVec.toNat_ofNat, Nat.pow_eq]
  omega

theorem StrongHash.toBytes_ofBytes {bytes : List UInt8} (h : bytes.length = strongWidth) :
    StrongHash.toBytes (StrongHash.ofBytes bytes) = bytes := by
  have hlt := ofBE_lt bytes
  rw [h] at hlt
  have : ofBE bytes % 2 ^ 128 = ofBE bytes := Nat.mod_eq_of_lt (by simpa [strongWidth] using hlt)
  rw [toBytes, ofBytes, BitVec.toNat_ofNat, this, ← h, beDigits_ofBE]

/-- The strong hash of a block. -/
def strongHash (data : ByteArray) : StrongHash :=
  .ofBytes ((Blake3.hash data).take strongWidth)

/-- The checksums of one block. -/
structure BlockSum where
  weak : UInt32
  strong : StrongHash
  deriving DecidableEq, Repr

/-- The checksums of the block `block`. -/
def BlockSum.ofBlock (block : ByteArray) : BlockSum :=
  ⟨(Weak.ofWindow block).digest, strongHash block⟩

/-- The checksums of a value's blocks, in order. -/
abbrev Signature := List BlockSum

/-- The checksums of the blocks of `value`. -/
def Signature.ofValue (value : ByteArray) (blockSize : Nat) : Signature :=
  (blocks value blockSize).map .ofBlock

/-! ### Looking up windows -/

/-- Blocks with their places in the signature, grouped by weak checksum; every group is in
ascending order. -/
structure Index where
  byWeak : Std.HashMap UInt32 (List (Nat × StrongHash))

namespace Index

/-- Puts block `b`, which stands at place `i` before all blocks entered so far, in front of its
group. -/
def enter (b : BlockSum) (i : Nat) (ix : Index) : Index :=
  ⟨ix.byWeak.alter b.weak fun group => some ((i, b.strong) :: group.getD [])⟩

/-- Enters the blocks of a signature from last to first. -/
def ofSignature (signature : Signature) : Index :=
  signature.zipIdx.foldr (fun (b, i) ix => enter b i ix) ⟨∅⟩

/-- The lowest block whose weak checksum is `weak` and whose strong hash is that of the bytes
`[start, stop)` of `data`. The hash is computed only if some block has the weak checksum. -/
def findIn (ix : Index) (data : ByteArray) (start stop : Nat) (weak : UInt32) : Option Nat :=
  match ix.byWeak[weak]? with
  | none => none
  | some group =>
    let strong := strongHash (data.extract start stop)
    (group.find? fun entry => entry.2 = strong).map (·.1)

/-- The lowest block with the weak checksum `weak` and the strong hash of `window`. -/
def find (ix : Index) (weak : UInt32) (window : ByteArray) : Option Nat :=
  ix.findIn window 0 window.size weak

end Index

end DeltaMesh
