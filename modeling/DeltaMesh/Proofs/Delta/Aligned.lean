import DeltaMesh.Proofs.Delta.Parts
import DeltaMesh.Proofs.Delta.PlainScan
import Mathlib.Algebra.Order.Floor.Div

/-!
# Values made of blocks that are known

A value whose blocks all have their sums in the signature is described by references alone, one for
each block. The scan finds the first window at once, goes on behind it, and so only ever looks up
blocks of the value; the bytes that are left at the end are a block as well, and the longest suffix
that is tried. Whether equal sums belong to equal bytes plays no part.

The blocks of a value that is put together from blocks of the old value are those blocks, provided
that only the last of them is short (`MadeOf.blocks_eq`).

Main statement: a value made of blocks of the old value is sent without any literal
(`diff_of_madeOf`).
-/

namespace DeltaMesh

/-! ### Blocks of a value that is put together -/

section

variable {a b : ByteArray} {blockSize : Nat}

/-- A full block in front is one block more. -/
theorem blockCount_add (n : Nat) (h : 0 < blockSize) :
    blockCount (blockSize + n) blockSize = blockCount n blockSize + 1 := by
  rw [blockCount, blockCount, if_neg (by omega), if_neg (by omega), Nat.add_assoc,
    Nat.add_div_left _ h]

/-- Blocks are cut from the left, so a full block in front stays a block. -/
theorem blocks_append (h : 0 < blockSize) (ha : a.size = blockSize) :
    blocks (a ++ b) blockSize = a :: blocks b blockSize := by
  have hfirst : blockAt (a ++ b) blockSize 0 = a := by
    rw [blockAt_eq, Nat.zero_mul, Nat.zero_add, ByteArray.extract_append_eq_left ha.symm]
  have hrest (i : Nat) : blockAt (a ++ b) blockSize (i + 1) = blockAt b blockSize i := by
    rw [blockAt_eq, blockAt_eq, Nat.succ_mul, Nat.add_comm (i * blockSize) blockSize,
      Nat.add_assoc, ByteArray.extract_append_size_add' ha.symm, Nat.add_comm blockSize]
  rw [blocks_eq_map, blocks_eq_map, ByteArray.size_append, ha, blockCount_add b.size h,
    List.range_succ_eq_map, List.map_cons, List.map_map, hfirst]
  exact congrArg (a :: ·) (List.map_congr_left fun i _ => hrest i)

theorem blocks_empty (blockSize : Nat) : blocks .empty blockSize = [] := by
  have hcount : blockCount ByteArray.empty.size blockSize = 0 :=
    Nat.le_zero.mp (blockCount_le _ _)
  rw [blocks_eq_map, hcount]
  rfl

theorem blocks_single (hsome : 0 < a.size) (hle : a.size ≤ blockSize) :
    blocks a blockSize = [a] := by
  have hpos : 0 < blockSize := Nat.lt_of_lt_of_le hsome hle
  have hcount : blockCount a.size blockSize = 1 := by
    refine Nat.le_antisymm ((blockCount_le_iff hpos).mpr ?_) (lt_blockCount hpos ?_)
    · rwa [Nat.one_mul]
    · rwa [Nat.zero_mul]
  have hblock : blockAt a blockSize 0 = a := by
    rw [blockAt, blockStart, blockStop, blockStart, Nat.zero_mul, Nat.zero_add,
      Nat.min_eq_right hle, ByteArray.extract_zero_size]
  rw [blocks_eq_map, hcount, List.range_one, List.map_singleton, hblock]

theorem size_blockAt {value : ByteArray} {i : Nat} (h : i < blockCount value.size blockSize) :
    0 < (blockAt value blockSize i).size ∧ (blockAt value blockSize i).size ≤ blockSize := by
  have hstart := mul_lt_of_lt_blockCount h
  have hpos := pos_of_lt_blockCount h
  rw [blockAt_eq, ByteArray.size_extract]
  omega

/-- Only the last block may be short. -/
theorem size_blockAt_of_next {value : ByteArray} {i : Nat}
    (h : i + 1 < blockCount value.size blockSize) :
    (blockAt value blockSize i).size = blockSize := by
  have hnext := mul_lt_of_lt_blockCount h
  rw [Nat.succ_mul] at hnext
  rw [blockAt_eq, ByteArray.size_extract]
  omega

/-- The last block goes to the end of the value. -/
theorem blockAt_of_short {value : ByteArray} {i : Nat}
    (h : value.size ≤ i * blockSize + blockSize) :
    blockAt value blockSize i = value.extract (i * blockSize) value.size := by
  rw [blockAt_eq, ← extract_min_size, Nat.min_eq_right h]

end

/-- `value` is made of the blocks of `base` at `places`, one behind the other. All but the last are
full. -/
structure MadeOf (base : ByteArray) (blockSize : Nat) (places : List Nat) (value : ByteArray) :
    Prop where
  inside : ∀ place ∈ places, place < blockCount base.size blockSize
  full : ∀ place ∈ places.dropLast, (blockAt base blockSize place).size = blockSize
  whole : (places.map (blockAt base blockSize)).foldl (· ++ ·) .empty = value

section

variable {base value : ByteArray} {blockSize : Nat} {places : List Nat}

/-- The blocks that a value is made of are its blocks. All but the last are full, so cutting the
value from the left meets the boundaries between them. -/
theorem MadeOf.blocks_eq (hpos : 0 < blockSize) (h : MadeOf base blockSize places value) :
    blocks value blockSize = places.map (blockAt base blockSize) := by
  induction places generalizing value with
  | nil =>
    obtain rfl := h.whole
    exact blocks_empty blockSize
  | cons place rest ih =>
    obtain ⟨hplace, hinside⟩ := List.forall_mem_cons.mp h.inside
    have hwhole := h.whole
    rw [List.map_cons, foldl_append_cons] at hwhole
    cases rest with
    | nil =>
      obtain ⟨hsome, hle⟩ := size_blockAt hplace
      rw [List.map_nil, List.foldl_nil, ByteArray.append_empty] at hwhole
      rw [← hwhole, blocks_single hsome hle]
      rfl
    | cons next rest =>
      obtain ⟨hsize, hfull⟩ := List.forall_mem_cons.mp h.full
      rw [← hwhole, blocks_append hpos hsize, ih ⟨hinside, hfull, rfl⟩]
      rfl

/-- The first `n` blocks are the beginning of the value. -/
theorem foldl_blockAt (base : ByteArray) (blockSize n : Nat) :
    ((List.range n).map (blockAt base blockSize)).foldl (· ++ ·) .empty =
      base.extract 0 (n * blockSize) := by
  induction n with
  | zero => rw [Nat.zero_mul, ByteArray.extract_same]; rfl
  | succ n ih =>
    rw [List.range_succ, List.map_append, List.foldl_append, ih, List.map_singleton,
      List.foldl_cons, List.foldl_nil, blockAt_eq, extract_zero_append base (Nat.le_add_right ..),
      Nat.succ_mul]

/-- A value is made of its own blocks. -/
theorem madeOf_self (hpos : 0 < blockSize) (base : ByteArray) :
    MadeOf base blockSize (List.range (blockCount base.size blockSize)) base where
  inside _ hmem := List.mem_range.mp hmem
  full place hmem := by
    rw [List.dropLast_eq_take, List.length_range, List.take_range, List.mem_range] at hmem
    exact size_blockAt_of_next (by omega)
  whole := by
    have hcover : base.size ≤ blockCount base.size blockSize * blockSize :=
      (blockCount_le_iff hpos).mp (Nat.le_refl _)
    rw [foldl_blockAt, ← extract_min_size, Nat.min_eq_right hcover, ByteArray.extract_zero_size]

end

/-! ### Scanning a value whose blocks are known -/

/-- The reference to the first block with the sums of `block`. -/
def Signature.refer (s : Signature) (block : ByteArray) : Instruction :=
  .reference (s.idxOf (.ofBlock block)).toUInt32

section

variable {s : Signature} {value : ByteArray} {blockSize : Nat}

theorem idxOf?_of_mem {sum : BlockSum} (h : sum ∈ s) : s.idxOf? sum = some (s.idxOf sum) := by
  obtain ⟨i, hi⟩ := Option.isSome_iff_exists.mp (List.isSome_idxOf?.mpr h)
  rw [List.idxOf_eq_getD_idxOf?, hi, Option.getD_some]

namespace Plain

/-- A window whose checksums are in the signature is found, at its first place. -/
theorem place?_of_mem {window : ByteArray} (h : .ofBlock window ∈ s) :
    place? s window = some (s.idxOf (.ofBlock window)) :=
  (place?_eq s window).trans (idxOf?_of_mem h)

theorem literal_extract_self (value : ByteArray) (i : Nat) :
    literal (value.extract i i) = [] := by
  rw [ByteArray.extract_same]
  rfl

/-- The suffix that is one block is found before any shorter one, since suffixes are tried from the
longest to the shortest. -/
theorem finish_of_mem {pos : Nat} (hlt : pos < value.size)
    (hmem : .ofBlock (value.extract pos value.size) ∈ s) :
    finish s value pos (value.size - pos) = [s.refer (value.extract pos value.size)] := by
  obtain ⟨length, hlength⟩ := Nat.exists_eq_add_of_lt hlt
  have hlongest : value.size - pos = length + 1 := by omega
  have hpos : value.size - (length + 1) = pos := by omega
  rw [hlongest, finish_of_some (hpos.symm ▸ place?_of_mem hmem), hpos, literal_extract_self,
    List.nil_append, Signature.refer]

/-- From the beginning of a block on the scan makes one reference for each block that is left. -/
theorem scan_of_mem (h : 0 < blockSize)
    (hmem : ∀ i < blockCount value.size blockSize, .ofBlock (blockAt value blockSize i) ∈ s)
    (k : Nat) : scan s value blockSize h (k * blockSize) (k * blockSize) =
      (List.range' k (blockCount value.size blockSize - k)).map
        fun i => s.refer (blockAt value blockSize i) := by
  induction hn : blockCount value.size blockSize - k generalizing k with
  | zero =>
    have hend : value.size ≤ k * blockSize := (blockCount_le_iff h).mp (by omega)
    rw [scan_of_short (by omega), Nat.sub_eq_zero_of_le hend, Nat.min_zero, finish, literal,
      if_pos (by rw [ByteArray.size_extract]; omega)]
    rfl
  | succ n ih =>
    have hk : k < blockCount value.size blockSize := by omega
    have hblock := hmem k hk
    rw [List.range'_succ, List.map_cons]
    by_cases hfit : k * blockSize + blockSize ≤ value.size
    · -- the window is the block at `k`
      have hplace := place?_of_mem hblock
      have hrest := ih (k + 1) (by omega)
      rw [blockAt_eq] at hplace
      rw [Nat.succ_mul] at hrest
      rw [scan_of_some hfit hplace, literal_extract_self, hrest, List.nil_append, Signature.refer,
        blockAt_eq]
    · -- only the short block is left
      have hshort : value.size ≤ k * blockSize + blockSize := by omega
      have hnone : n = 0 := by
        have hlast := (blockCount_le_iff h).mpr (Nat.succ_mul k blockSize ▸ hshort)
        omega
      rw [blockAt_of_short hshort] at hblock ⊢
      rw [scan_of_short hfit, Nat.min_eq_right (by omega),
        finish_of_mem (mul_lt_of_lt_blockCount hk) hblock, hnone]
      rfl

end Plain

/-- If all blocks of a value have their sums in the signature, the delta refers to them one after
the other. -/
theorem diff_of_mem (h : 0 < blockSize)
    (hmem : ∀ block ∈ blocks value blockSize, .ofBlock block ∈ s) :
    diff s value blockSize = (blocks value blockSize).map s.refer := by
  by_cases hempty : value.size = 0
  · obtain rfl := ByteArray.size_eq_zero_iff.mp hempty
    rw [blocks_empty]
    rfl
  · have hblock (i : Nat) (hi : i < blockCount value.size blockSize) :
        .ofBlock (blockAt value blockSize i) ∈ s := by
      refine hmem _ ?_
      rw [blocks_eq_map]
      exact List.mem_map_of_mem (List.mem_range.mpr hi)
    have hs : s ≠ [] := List.ne_nil_of_mem (hblock 0 (lt_blockCount h (by omega)))
    have hscan := Plain.scan_of_mem h hblock 0
    rw [Nat.zero_mul, Nat.sub_zero, ← List.range_eq_range'] at hscan
    rw [diff_eq_scan h hs hempty, hscan, blocks_eq_map, List.map_map]
    rfl

/-- A reference to a sum in the signature is made for the block, whichever index it carries. -/
theorem makes_refer {block : ByteArray} (hs : s.length ≤ UInt32.size) (h : .ofBlock block ∈ s) :
    (s.refer block).Makes s block := by
  have hit : Hit s block (s.idxOf (.ofBlock block)) 0 block.size := by
    rw [Hit, ByteArray.extract_zero_size]
    exact idxOf?_of_mem h
  have hmakes := Instruction.Makes.of_hit hs hit
  rwa [ByteArray.extract_zero_size] at hmakes

end

/-! ### Values made of blocks of the old value -/

section

variable {base value : ByteArray} {blockSize : Nat} {places : List Nat}

theorem ofBlock_mem_ofValue {place : Nat} (h : place < blockCount base.size blockSize) :
    .ofBlock (blockAt base blockSize place) ∈ Signature.ofValue base blockSize := by
  rw [ofValue_eq_map]
  exact List.mem_map_of_mem (List.mem_range.mpr h)

/-- The delta of a value made of blocks of the old value refers to those blocks, or to earlier ones
with the same sums. -/
theorem MadeOf.diff_eq (hpos : 0 < blockSize) (h : MadeOf base blockSize places value) :
    diff (.ofValue base blockSize) value blockSize =
      places.map fun place => (Signature.ofValue base blockSize).refer
        (blockAt base blockSize place) := by
  have hblocks := h.blocks_eq hpos
  rw [diff_of_mem hpos, hblocks, List.map_map]
  · rfl
  · rw [hblocks]
    refine List.forall_mem_map.mpr fun place hmem => ?_
    exact ofBlock_mem_ofValue (h.inside place hmem)

/-- The delta in full: one reference for each block of the arrangement, to the first place at which
the signature has the checksums of that block. -/
theorem MadeOf.exists_found (hpos : 0 < blockSize) (h : MadeOf base blockSize places value) :
    ∃ found : List UInt32, found.length = places.length ∧
      diff (.ofValue base blockSize) value blockSize = found.map .reference := by
  refine ⟨places.map fun place => ((Signature.ofValue base blockSize).idxOf
    (.ofBlock (blockAt base blockSize place))).toUInt32, List.length_map _, ?_⟩
  rw [h.diff_eq hpos, List.map_map]
  rfl

/-- Each reference that is found denotes the block that stands there, though perhaps by a smaller
index. -/
theorem MadeOf.made (hpos : 0 < blockSize) (hbase : blockCount base.size blockSize ≤ UInt32.size)
    (h : MadeOf base blockSize places value) :
    List.Forall₂ (Instruction.Makes (.ofValue base blockSize))
      (diff (.ofValue base blockSize) value blockSize) (places.map (blockAt base blockSize)) := by
  have hlength : (Signature.ofValue base blockSize).length ≤ UInt32.size := by
    rwa [ofValue_eq_map, List.length_map, List.length_range]
  rw [h.diff_eq hpos, List.forall₂_map_left_iff, List.forall₂_map_right_iff, List.forall₂_same]
  exact fun place hmem => makes_refer hlength (ofBlock_mem_ofValue (h.inside place hmem))

end

/-- A value made of blocks of the old value is sent as one reference for each of them and without
any literal, and so is the old value itself. The blocks may come in any order and any number of
times, but only the last one may be a short one. -/
theorem diff_of_madeOf (base : ByteArray) {blockSize : Nat} (hpos : 0 < blockSize)
    (hbase : blockCount base.size blockSize ≤ UInt32.size) :
    (∀ (places : List Nat) (value : ByteArray), MadeOf base blockSize places value →
      ∃ found : List UInt32, found.length = places.length ∧
        diff (.ofValue base blockSize) value blockSize = found.map .reference ∧
        List.Forall₂ (Instruction.Makes (.ofValue base blockSize)) (found.map .reference)
          (places.map (blockAt base blockSize))) ∧
      ∃ found : List UInt32, found.length = base.size ⌈/⌉ blockSize ∧
        diff (.ofValue base blockSize) base blockSize = found.map .reference := by
  constructor
  · intro places value h
    obtain ⟨found, hlength, hdiff⟩ := h.exists_found hpos
    exact ⟨found, hlength, hdiff, hdiff ▸ h.made hpos hbase⟩
  · obtain ⟨found, hlength, hdiff⟩ := (madeOf_self hpos base).exists_found hpos
    have hceil : base.size ⌈/⌉ blockSize = blockCount base.size blockSize := by
      rw [Nat.ceilDiv_eq_add_pred_div, blockCount, if_neg (by omega), Nat.add_sub_assoc hpos]
    rw [List.length_range] at hlength
    exact ⟨found, hlength.trans hceil.symm, hdiff⟩

/-- The first two blocks are equal, and the last one is short. The new value has the third block
twice and the short one at its end. -/
theorem diff_of_madeOf_shuffled :
    MadeOf ⟨#[1, 2, 1, 2, 3, 4, 5]⟩ 2 [2, 1, 2, 3] ⟨#[3, 4, 1, 2, 3, 4, 5]⟩ ∧
      (∃ found : List UInt32, found.length = 4 ∧
        diff (.ofValue ⟨#[1, 2, 1, 2, 3, 4, 5]⟩ 2) ⟨#[3, 4, 1, 2, 3, 4, 5]⟩ 2 =
          found.map .reference) ∧
      ∃ found : List UInt32, found.length = 4 ∧
        diff (.ofValue ⟨#[1, 2, 1, 2, 3, 4, 5]⟩ 2) ⟨#[1, 2, 1, 2, 3, 4, 5]⟩ 2 =
          found.map .reference := by
  have hmade : MadeOf ⟨#[1, 2, 1, 2, 3, 4, 5]⟩ 2 [2, 1, 2, 3] ⟨#[3, 4, 1, 2, 3, 4, 5]⟩ :=
    ⟨by decide, by decide, by decide⟩
  obtain ⟨hparts, hself⟩ :=
    diff_of_madeOf ⟨#[1, 2, 1, 2, 3, 4, 5]⟩ (by decide : 0 < 2) (by decide)
  obtain ⟨found, hlength, hdiff, -⟩ := hparts _ _ hmade
  exact ⟨hmade, ⟨found, hlength, hdiff⟩, hself⟩

end DeltaMesh
