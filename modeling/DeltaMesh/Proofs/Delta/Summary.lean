import DeltaMesh.Delta.Summary
import DeltaMesh.Proofs.Delta.Replay
import Mathlib.Algebra.GroupWithZero.Nat

/-!
# The figures of a delta

A summary counts the bytes that the literals carry; how many come from the old value it does not
count, but takes to be the rest of the new value. That rest is right because a value that is rebuilt
is as long as the literals and the blocks named together (`Delta.size_of_rebuild`), whichever blocks
are named, the short last one among them, and however often.

Main statement: `Summary.figures_exact`.
-/

namespace DeltaMesh

namespace Delta

/-- The blocks that a delta names, in order and as often as it names them. -/
def named (delta : Delta) : List UInt32 :=
  delta.filterMap fun
    | .reference index => some index
    | .literal _ => none

/-- How many bytes the blocks have that a delta names. -/
def namedBytes (base : ByteArray) (blockSize : Nat) (delta : Delta) : Nat :=
  (delta.named.map fun index => (blockAt base blockSize index.toNat).size).sum

variable {base : ByteArray} {blockSize : Nat}

theorem length_content (delta : Delta) : (delta.content base blockSize).length =
    delta.literalBytes + delta.namedBytes base blockSize := by
  induction delta with
  | nil => rfl
  | cons i delta ih =>
    rw [length_content_cons, ih]
    cases i with
    | literal bytes => exact (Nat.add_assoc ..).symm
    | reference index => exact Nat.add_left_comm ..

/-- A value that is rebuilt is as long as the literals and the blocks named. -/
theorem size_of_rebuild {delta : Delta} {value : ByteArray}
    (h : rebuild base delta blockSize = .ok value) :
    value.size = delta.literalBytes + delta.namedBytes base blockSize := by
  rw [← length_content, ← toList_of_rebuild h, length_toList]

/-- Each instruction is a reference or a literal. -/
theorem ops_add (delta : Delta) : delta.referenceOps + delta.literalOps = delta.length := by
  induction delta with
  | nil => rfl
  | cons i delta ih =>
    rw [referenceOps, literalOps] at ih ⊢
    cases i with
    | reference index =>
      rw [List.countP_cons_of_pos rfl, List.countP_cons_of_neg Bool.false_ne_true,
        List.length_cons, ← ih, Nat.add_right_comm]
    | literal bytes =>
      rw [List.countP_cons_of_neg Bool.false_ne_true, List.countP_cons_of_pos rfl,
        List.length_cons, ← ih, Nat.add_assoc]

end Delta

namespace Summary

/-- The figures are those of a transfer in which `delta` makes a value of `target` bytes from `base`
and its encoded form has `payload` bytes. -/
structure Describes (s : Summary) (base : ByteArray) (blockSize : Nat) (delta : Delta)
    (target payload : Nat) : Prop where
  targetSize : s.targetSize = target
  bytes : s.literalBytes + s.referencedBytes = s.targetSize
  referencedBytes : s.referencedBytes = delta.namedBytes base blockSize
  ops : s.referenceOps + s.literalOps = delta.length
  bytesSaved : (s.bytesSaved : Int) = max 0 ((target : Int) - payload)

theorem describes_of_rebuild {base value : ByteArray} {blockSize : Nat} {delta : Delta}
    (h : rebuild base delta blockSize = .ok value) (payload : Nat) :
    (ofDelta delta value.size payload).Describes base blockSize delta value.size payload := by
  have hsize := Delta.size_of_rebuild h
  have hrest : value.size - delta.literalBytes = delta.namedBytes base blockSize := by omega
  refine ⟨rfl, ?_, hrest, delta.ops_add, ?_⟩
  · show delta.literalBytes + (value.size - delta.literalBytes) = value.size
    omega
  · show ((value.size - payload : Nat) : Int) = max 0 ((value.size : Int) - payload)
    omega

/-- The figures of a delta are those of the transfer, whatever delta it is that a value can be
rebuilt with. So they are for every delta that is made against the signature of the old value, with
the new value rebuilt, as long as the strong hash separates the two and the old value has no more
blocks than references can name. -/
theorem figures_exact (base : ByteArray) (blockSize payload : Nat) :
    (∀ delta value, rebuild base delta blockSize = .ok value →
      (ofDelta delta value.size payload).Describes base blockSize delta value.size payload) ∧
    ∀ value windowSize, Separates value base blockSize →
      blockCount base.size blockSize ≤ UInt32.size →
        let delta := diff (.ofValue base blockSize) value windowSize
        rebuild base delta blockSize = .ok value ∧
          (ofDelta delta value.size payload).Describes base blockSize delta value.size payload := by
  refine ⟨fun delta value h => describes_of_rebuild h payload, ?_⟩
  intro value windowSize hsep hbase
  have hrebuild := rebuild_diff_of_blockCount windowSize hbase hsep
  exact ⟨hrebuild, describes_of_rebuild hrebuild payload⟩

/-- The short last block is named twice, and the payload is longer than the value; and a delta that
was made against a signature. -/
theorem figures_exact_short_block :
    let base : ByteArray := ⟨#[1, 2, 5]⟩
    let delta : Delta := [.reference 1, .literal ⟨#[9]⟩, .reference 0, .reference 1]
    let value : ByteArray := ⟨#[3, 7, 1, 2]⟩
    let made := diff (.ofValue base 2) value 3
    (rebuild base delta 2 = .ok ⟨#[5, 9, 1, 2, 5]⟩ ∧
      (ofDelta delta 5 7).Describes base 2 delta 5 7) ∧
    Separates value base 2 ∧ blockCount base.size 2 ≤ UInt32.size ∧
      rebuild base made 2 = .ok value ∧ (ofDelta made 4 3).Describes base 2 made 4 3 := by
  intro base delta value made
  have hrebuild : rebuild base delta 2 = .ok ⟨#[5, 9, 1, 2, 5]⟩ := by
    refine rebuild_eq_ok_iff.mpr ⟨fun index hmem => ?_, by decide +kernel⟩
    obtain rfl | rfl | rfl : index = 1 ∨ index = 0 ∨ index = 1 := by simpa [delta] using hmem
    all_goals decide
  have hsep : Separates value base 2 := by decide +kernel
  have hbase : blockCount base.size 2 ≤ UInt32.size := by decide
  exact ⟨⟨hrebuild, (figures_exact base 2 7).1 delta _ hrebuild⟩, hsep, hbase,
    (figures_exact base 2 3).2 value 3 hsep hbase⟩

end Summary

end DeltaMesh
