import DeltaMesh.Proofs.Delta.Tiling
import DeltaMesh.Proofs.Wire.Payload
import Mathlib.Algebra.Order.BigOperators.Group.List
import Mathlib.Algebra.Order.Ring.Nat

/-!
# How long lists are on the wire

A signature takes twenty bytes for each block. In a delta a reference takes eight bytes and a
literal twelve more than it carries (`size_putDelta`), so a delta can be longer than the value that
it describes. A full block saves its own length, and costs at most a reference and a literal in
front of it (`size_encodeDelta_diff_le_add`). As soon as a block is as long as these two, what a
delta adds to the value does not depend on the value any more (`size_putDelta_diff_le`).
-/

namespace DeltaMesh.Wire

/-! ### Signatures -/

/-- The size of a list is the sum of the sizes of its items and eight bytes for their number. -/
theorem size_putItems_eq_sum {α : Type} (put : α → ByteArray) (l : List α) :
    (putItems put l).size = 8 + (l.map fun a => (put a).size).sum := by
  rw [Reader.size_putItems, List.length_flatMap]
  simp only [length_toList]

theorem size_putItems_of_width {α : Type} {put : α → ByteArray} {width : Nat}
    (h : ∀ a, (put a).size = width) (l : List α) :
    (putItems put l).size = 8 + width * l.length := by
  rw [size_putItems_eq_sum]
  simp only [h, List.map_const', List.sum_replicate_nat, Nat.mul_comm]

/-- A block takes twenty bytes in a signature: four for the weak checksum, sixteen for the strong
hash. -/
theorem size_putSignature (s : Signature) : (putSignature s).size = 8 + 20 * s.length :=
  size_putItems_of_width size_putBlockSum s

/-- A signature has one entry for each block. -/
theorem length_ofValue (value : ByteArray) (blockSize : Nat) :
    (Signature.ofValue value blockSize).length = blockCount value.size blockSize := by
  rw [ofValue_eq_map, List.length_map, List.length_range]

/-! ### Deltas -/

/-- How many bytes an instruction takes. -/
def instructionSize : Instruction → Nat
  | .reference _ => 8
  | .literal bytes => 12 + bytes.size

theorem size_putInstruction (i : Instruction) : (putInstruction i).size = instructionSize i := by
  cases i with
  | reference index =>
    simp [putInstruction, putVariant, putU32, Reader.size_putNumber, instructionSize]
  | literal bytes =>
    simp [putInstruction, putVariant, putBytes, putU64, Reader.size_putNumber, instructionSize,
      ← Nat.add_assoc]

/-- A delta takes the bytes of its instructions and eight for their number. -/
theorem size_putDelta (d : Delta) : (putDelta d).size = 8 + (d.map instructionSize).sum := by
  rw [putDelta, size_putItems_eq_sum]
  simp only [size_putInstruction]

/-- How many bytes a segment takes in a delta. -/
def segmentSize : Segment → Nat
  | .reference _ _ _ => 8
  | .literal start stop => 12 + (stop - start)

/-- How many bytes segments take in a delta. -/
def segmentsSize (l : List Segment) : Nat := (l.map segmentSize).sum

@[simp] theorem segmentsSize_nil : segmentsSize [] = 0 := rfl

@[simp] theorem segmentsSize_append (l r : List Segment) :
    segmentsSize (l ++ r) = segmentsSize l + segmentsSize r := by
  rw [segmentsSize, List.map_append, List.sum_append_nat]
  rfl

@[simp] theorem segmentsSize_singleton (s : Segment) : segmentsSize [s] = segmentSize s := by
  simp [segmentsSize]

/-- An instruction is no larger than its segment says. A literal that reached behind the end of the
value would be smaller, which is why this is a bound. -/
theorem instructionSize_le (value : ByteArray) (s : Segment) :
    instructionSize (s.instruction value) ≤ segmentSize s := by
  cases s with
  | reference block start stop => exact Nat.le_refl _
  | literal start stop =>
    simp only [Segment.instruction, instructionSize, segmentSize, ByteArray.size_extract]
    omega

/-- What is sent for a list of segments is bounded by what they are counted for. -/
theorem size_putDelta_le (value : ByteArray) (l : List Segment) :
    (putDelta (l.map (Segment.instruction value))).size ≤ 8 + segmentsSize l := by
  rw [size_putDelta, List.map_map, segmentsSize]
  exact Nat.add_le_add_left (List.sum_le_sum fun s _ => instructionSize_le value s) 8

section

variable {s : Signature} {value : ByteArray} {blockSize : Nat}

/-- A literal costs its bytes and twelve more. -/
theorem segmentsSize_pushLiteral_le (done : Array Segment) (start stop : Nat) :
    segmentsSize (Scan.pushLiteral done start stop).toList ≤
      segmentsSize done.toList + 12 + (stop - start) := by
  rw [Scan.pushLiteral]
  split
  · rw [Array.toList_push, segmentsSize_append, segmentsSize_singleton, segmentSize]
    omega
  · omega

/-- A reference costs eight bytes. -/
theorem segmentsSize_push_reference (done : Array Segment) (block start stop : Nat) :
    segmentsSize (done.push (.reference block start stop)).toList =
      segmentsSize done.toList + 8 := by
  rw [Array.toList_push, segmentsSize_append, segmentsSize_singleton, segmentSize]

/-- How far a list of segments may outgrow the bytes before `pos`, where its references stand for
`blocks` full blocks: what each of them costs beyond the bytes that it saves. -/
def Within (blockSize pos blocks : Nat) (l : List Segment) : Prop :=
  blocks * blockSize ≤ pos ∧ segmentsSize l ≤ pos + (20 - blockSize) * blocks

/-- A full block pays for the reference to it and for the literal in front of it, as far as it
reaches. -/
theorem within_fullBlocks (ix : Index) (hpos : 0 < blockSize) {pos blocks : Nat}
    {done : Array Segment} (h : Within blockSize pos blocks done.toList) (hle : pos ≤ value.size) :
    (Scan.fullBlocks ix value blockSize hpos pos done).2 ≤ value.size ∧
      ∃ blocks, Within blockSize (Scan.fullBlocks ix value blockSize hpos pos done).2 blocks
        (Scan.fullBlocks ix value blockSize hpos pos done).1.toList := by
  -- a match moves on by a whole window, so that less of the value is left
  induction hn : value.size - pos using Nat.strongRecOn generalizing pos blocks done with
  | _ n ih =>
    rw [Scan.fullBlocks]
    split
    case h_1 => exact ⟨hle, blocks, h⟩
    case h_2 off block hmatch =>
      obtain ⟨hcount, hsize⟩ := h
      obtain ⟨hoff, hfit⟩ := Scan.nextMatch_bounds hmatch
      have hliteral := segmentsSize_pushLiteral_le done pos off
      have hreference := segmentsSize_push_reference (Scan.pushLiteral done pos off) block off
        (off + blockSize)
      have hnext : Within blockSize (off + blockSize) (blocks + 1)
          ((Scan.pushLiteral done pos off).push
            (.reference block off (off + blockSize))).toList := by
        refine ⟨?_, ?_⟩
        · rw [Nat.succ_mul]
          omega
        · rw [Nat.mul_succ]
          omega
      exact ih _ (by omega) hnext hfit rfl

/-- The end of the scan adds at most one literal and one reference. Every block that was matched
before has paid with `blockSize` bytes of the value for eight bytes of a reference and twelve of the
literal before it, which gives the factor `20 - blockSize`. -/
theorem segmentsSize_finish_le {pos blocks : Nat} {done : Array Segment}
    (h : Within blockSize pos blocks done.toList) (hle : pos ≤ value.size) :
    segmentsSize (Scan.finish (.ofSignature s) value blockSize pos done).toList ≤
      value.size + 19 + (20 - blockSize) * blocks := by
  obtain ⟨-, hsize⟩ := h
  rw [Scan.finish]
  split
  case h_1 start block hmatch =>
    -- the suffix has at least one byte, which the reference to it saves
    obtain ⟨hstart, hlt, -⟩ := Scan.hit_of_suffixMatch (Nat.sub_le ..) hmatch
    have hliteral := segmentsSize_pushLiteral_le done pos start
    have hreference := segmentsSize_push_reference (Scan.pushLiteral done pos start) block start
      value.size
    omega
  case h_2 =>
    have hliteral := segmentsSize_pushLiteral_le done pos value.size
    omega

/-- The bound for the whole scan. There are no more full blocks than fit into the value. -/
theorem segmentsSize_segments_le (s : Signature) (value : ByteArray) (blockSize : Nat) :
    segmentsSize (segments s value blockSize) ≤
      value.size + 19 + (20 - blockSize) * (value.size / blockSize) := by
  rw [segments]
  split
  case isTrue => exact Nat.zero_le _
  case isFalse hne =>
    split
    case isTrue h =>
      have hstart : Within blockSize 0 0 (#[] : Array Segment).toList :=
        ⟨Nat.le_of_eq (Nat.zero_mul _), Nat.zero_le _⟩
      obtain ⟨hle, blocks, hfull⟩ :=
        within_fullBlocks (.ofSignature s) h.1 hstart (Nat.zero_le value.size)
      have hblocks : blocks ≤ value.size / blockSize :=
        (Nat.le_div_iff_mul_le h.1).mpr (Nat.le_trans hfull.1 hle)
      exact Nat.le_trans (segmentsSize_finish_le hfull hle)
        (Nat.add_le_add_left (Nat.mul_le_mul_left _ hblocks) _)
    case isFalse =>
      rw [segmentsSize_singleton, segmentSize]
      omega

end

/-- A delta is at most 27 bytes longer than the value, and in addition, for each block that the
value has room for, by as much as the block is shorter than twenty bytes. -/
theorem size_putDelta_diff_le_add (s : Signature) (value : ByteArray) (blockSize : Nat) :
    (putDelta (diff s value blockSize)).size ≤
      value.size + 27 + (20 - blockSize) * (value.size / blockSize) := by
  have hdelta := size_putDelta_le value (segments s value blockSize)
  have hsegments := segmentsSize_segments_le s value blockSize
  rw [diff]
  omega

/-- The bound for the payload that the delta travels in, which adds its tag. -/
theorem size_encodeDelta_diff_le_add (s : Signature) (value : ByteArray) (blockSize : Nat) :
    (encodeDelta (diff s value blockSize)).size ≤
      value.size + 28 + (20 - blockSize) * (value.size / blockSize) := by
  have hpayload : (encodeDelta (diff s value blockSize)).size ≤ _ := size_payload_le _
  have hdelta := size_putDelta_diff_le_add s value blockSize
  omega

/-- With blocks of at least twenty bytes a delta is at most 27 bytes longer than the value. -/
theorem size_putDelta_diff_le (s : Signature) (value : ByteArray) {blockSize : Nat}
    (hblock : 20 ≤ blockSize) : (putDelta (diff s value blockSize)).size ≤ value.size + 27 := by
  have hdelta := size_putDelta_diff_le_add s value blockSize
  rwa [Nat.sub_eq_zero_of_le hblock, Nat.zero_mul] at hdelta

/-- A payload has at most its tag besides the delta, so the bound carries over to what is sent. -/
theorem size_encodeDelta_diff_le (s : Signature) (value : ByteArray) {blockSize : Nat}
    (hblock : 20 ≤ blockSize) : (encodeDelta (diff s value blockSize)).size ≤ value.size + 28 := by
  have hdelta := size_encodeDelta_diff_le_add s value blockSize
  rwa [Nat.sub_eq_zero_of_le hblock, Nat.zero_mul] at hdelta

end DeltaMesh.Wire
