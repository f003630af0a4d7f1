import DeltaMesh.Proofs.Delta.Aligned
import DeltaMesh.Proofs.Delta.Replay
import Mathlib.Data.List.Chain

/-!
# One division into blocks, computed three times

Whoever signs a value cuts one block after the other off it; whoever rebuilds counts the blocks by a
division that rounds up, and bounds each of them by a multiple of the block size and the end of the
value. A reference carries an index only, so the two have to mean the same block by it, whether the
last block is short or full, the only one, or there is none at all.

What a division of a value is says `IsDivision`: no stretch is empty, each begins where the one
before it ends, and the stretches in order go through the whole value.

Main statement: a signature has as many sums as blocks are counted, each of the bytes between the
bounds of its block; the bounds divide the value, and referring to all blocks in order rebuilds it
(`partitions_agree`).
-/

namespace DeltaMesh

/-- Where the blocks of a value of `length` bytes begin and end, in order. -/
def blockRanges (length blockSize : Nat) : List (Nat × Nat) :=
  (List.range (blockCount length blockSize)).map fun index =>
    (blockStart blockSize index, blockStop length blockSize index)

/-- The delta that refers to blocks `0`, …, `count - 1`. -/
def Delta.ofBlocks (count : Nat) : Delta :=
  (List.range count).map fun index => .reference index.toUInt32

/-- The stretches divide a value of `length` bytes. -/
structure IsDivision (length : Nat) (ranges : List (Nat × Nat)) : Prop where
  nonempty : ∀ range ∈ ranges, range.1 < range.2
  contiguous : ranges.IsChain fun range next => range.2 = next.1
  whole : (ranges.flatMap fun range => List.range' range.1 (range.2 - range.1)) =
    List.range length

section

variable {length blockSize index : Nat}

/-! ### The bounds -/

theorem blockStart_lt_blockStop (h : index < blockCount length blockSize) :
    blockStart blockSize index < blockStop length blockSize index := by
  have hstart : blockStart blockSize index < length := mul_lt_of_lt_blockCount h
  have hpos := pos_of_lt_blockCount h
  rw [blockStop]
  omega

/-- A block that is not the last one is full, and ends where the next one begins. -/
theorem blockStop_of_next (h : index + 1 < blockCount length blockSize) :
    blockStop length blockSize index = blockStart blockSize (index + 1) := by
  have hnext : blockStart blockSize (index + 1) < length := mul_lt_of_lt_blockCount h
  rw [blockStart, Nat.succ_mul] at hnext
  rw [blockStop, blockStart, blockStart, Nat.succ_mul]
  omega

/-- The bound of a block before it is cut to the value. It is small because either the block is the
first one or there is a whole block before it. -/
theorem blockStart_add_lt (hlength : length < 2 ^ 63) (hsize : blockSize < 2 ^ 64)
    (h : index < blockCount length blockSize) :
    blockStart blockSize index + blockSize < 2 ^ 64 := by
  have hstart : blockStart blockSize index < length := mul_lt_of_lt_blockCount h
  cases index with
  | zero =>
    rw [blockStart, Nat.zero_mul, Nat.zero_add]
    exact hsize
  | succ before =>
    have hbefore : blockSize ≤ blockStart blockSize (before + 1) :=
      Nat.le_mul_of_pos_left blockSize (Nat.succ_pos before)
    omega

/-- The first `n` blocks go through the value up to where the last of them ends, or to the end of
the value if that comes first. -/
theorem flatMap_blockRange {n : Nat} (h : n ≤ blockCount length blockSize) :
    ((List.range n).flatMap fun index => List.range' (blockStart blockSize index)
      (blockStop length blockSize index - blockStart blockSize index)) =
        List.range (min (n * blockSize) length) := by
  induction n with
  | zero => rw [Nat.zero_mul, Nat.zero_min]; rfl
  | succ n ih =>
    -- the next block begins inside the value, so that those before it are full
    have hstart : n * blockSize < length := mul_lt_of_lt_blockCount h
    have hstop := blockStart_lt_blockStop h
    have hend : blockStop length blockSize n = min ((n + 1) * blockSize) length := by
      rw [blockStop, blockStart, Nat.succ_mul]
    have hsplit := @List.range'_append_1 0 (blockStart blockSize n)
      (blockStop length blockSize n - blockStart blockSize n)
    rw [Nat.zero_add, Nat.add_sub_cancel' (Nat.le_of_lt hstop)] at hsplit
    rw [List.range_succ, List.flatMap_append, ih (Nat.le_of_succ_le h),
      Nat.min_eq_left (Nat.le_of_lt hstart), List.flatMap_singleton, ← hend, List.range_eq_range',
      List.range_eq_range', ← hsplit, blockStart]

theorem isDivision_blockRanges (h : 0 < blockSize) :
    IsDivision length (blockRanges length blockSize) where
  nonempty := by
    refine List.forall_mem_map.mpr fun index hmem => ?_
    exact blockStart_lt_blockStop (List.mem_range.mp hmem)
  contiguous := by
    rw [blockRanges, List.isChain_map, List.isChain_iff_getElem]
    intro index hnext
    rw [List.length_range] at hnext
    simp only [List.getElem_range]
    exact blockStop_of_next hnext
  whole := by
    have hcover : length ≤ blockCount length blockSize * blockSize :=
      (blockCount_le_iff h).mp (Nat.le_refl _)
    rw [blockRanges, List.flatMap_map, flatMap_blockRange (Nat.le_refl _), Nat.min_eq_right hcover]

end

section

variable {value : ByteArray} {blockSize : Nat}

/-! ### The signature -/

theorem getElem?_ofValue {index : Nat} (h : index < blockCount value.size blockSize) :
    (Signature.ofValue value blockSize)[index]? =
      some (.ofBlock (blockAt value blockSize index)) := by
  rw [ofValue_eq_map, List.getElem?_map, List.getElem?_range h, Option.map_some]

/-! ### Referring to every block -/

theorem inRange_ofBlocks (h : blockCount value.size blockSize ≤ UInt32.size) :
    (Delta.ofBlocks (blockCount value.size blockSize)).InRange value blockSize := by
  intro index hmem
  obtain ⟨place, hplace, hindex⟩ := List.mem_map.mp hmem
  obtain rfl := Instruction.reference.inj hindex
  have hlt := List.mem_range.mp hplace
  rwa [toNat_toUInt32_of_lt h hlt]

theorem replay_ofBlocks (h : blockCount value.size blockSize ≤ UInt32.size) (out : ByteArray) :
    (Delta.ofBlocks (blockCount value.size blockSize)).replay value blockSize out =
      ((List.range (blockCount value.size blockSize)).map (blockAt value blockSize)).foldl
        (· ++ ·) out := by
  rw [Delta.replay, Delta.ofBlocks, List.foldl_map, List.foldl_map]
  refine List.foldl_ext _ _ _ fun out place hmem => ?_
  rw [Instruction.bytesFrom, toNat_toUInt32_of_lt h (List.mem_range.mp hmem)]

theorem rebuild_ofBlocks (hpos : 0 < blockSize)
    (h : blockCount value.size blockSize ≤ UInt32.size) :
    rebuild value (.ofBlocks (blockCount value.size blockSize)) blockSize = .ok value := by
  rw [rebuild_of_inRange (inRange_ofBlocks h), replay_ofBlocks h, (madeOf_self hpos value).whole]

end

/-- The signature of a value has a sum for each block that is counted, and it is that of the bytes
between the bounds of the block; these are bounds of the value, and computing them does not take
more than sixty-four bits. Unless the block size is zero, the blocks in order divide the value, and
as long as thirty-two bits are enough to name them, referring to them in order rebuilds the
value. -/
theorem partitions_agree (value : ByteArray) (blockSize : Nat) :
    (Signature.ofValue value blockSize).length = blockCount value.size blockSize ∧
    (∀ index < blockCount value.size blockSize, ∃ block,
      slice value (blockStart blockSize index) (blockStop value.size blockSize index) = .ok block ∧
        (Signature.ofValue value blockSize)[index]? = some (.ofBlock block)) ∧
    (value.size < 2 ^ 63 → blockSize < 2 ^ 64 → ∀ index < blockCount value.size blockSize,
      blockStart blockSize index + blockSize < 2 ^ 64) ∧
    (0 < blockSize → IsDivision value.size (blockRanges value.size blockSize)) ∧
    (0 < blockSize → blockCount value.size blockSize ≤ UInt32.size →
      rebuild value (.ofBlocks (blockCount value.size blockSize)) blockSize = .ok value) := by
  refine ⟨?_, fun index h => ?_, fun hlength hsize index h => ?_, isDivision_blockRanges,
    rebuild_ofBlocks⟩
  · rw [ofValue_eq_map, List.length_map, List.length_range]
  · exact ⟨_, slice_block h, getElem?_ofValue h⟩
  · exact blockStart_add_lt hlength hsize h

/-- Two full blocks and a short one. -/
theorem partitions_agree_short_block :
    (∃ block, slice ⟨#[1, 2, 3, 4, 5]⟩ 4 5 = .ok block ∧
      (Signature.ofValue ⟨#[1, 2, 3, 4, 5]⟩ 2)[2]? = some (.ofBlock block)) ∧
    blockStart 2 2 + 2 < 2 ^ 64 ∧
    IsDivision 5 [(0, 2), (2, 4), (4, 5)] ∧
    rebuild ⟨#[1, 2, 3, 4, 5]⟩ [.reference 0, .reference 1, .reference 2] 2 =
      .ok ⟨#[1, 2, 3, 4, 5]⟩ := by
  obtain ⟨-, hsums, hbounds, hdivision, hrebuild⟩ := partitions_agree ⟨#[1, 2, 3, 4, 5]⟩ 2
  exact ⟨hsums 2 (by decide), hbounds (by decide) (by decide) 2 (by decide), hdivision (by decide),
    hrebuild (by decide) (by decide)⟩

end DeltaMesh
