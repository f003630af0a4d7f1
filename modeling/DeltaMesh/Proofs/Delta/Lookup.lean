import DeltaMesh.Proofs.Delta.Checksum

/-!
# Blocks and their signature

The blocks of a value are the stretches that `blockAt` names, one for each index below
`blockCount`. An `Index` of a signature finds a window exactly where the list of block sums has
its sum, and of several places the lowest.

Main statements: the blocks of a value in order (`blocks_eq_map`), the index agrees with the
list (`findIn_eq_idxOf?`), and a window found in the signature of a value has the strong hash
of the block found (`strongHash_eq_of_idxOf?`).
-/

namespace DeltaMesh

/-! ### The blocks of a value -/

theorem extract_min_size (value : ByteArray) (start stop : Nat) :
    value.extract start (min stop value.size) = value.extract start stop := by
  apply ByteArray.ext
  simp only [ByteArray.data_extract, ← ByteArray.size_data]
  exact Array.extract_eq_extract_right.mpr (by omega)

theorem blockAt_eq (value : ByteArray) (blockSize index : Nat) :
    blockAt value blockSize index =
      value.extract (index * blockSize) (index * blockSize + blockSize) :=
  extract_min_size ..

/-- A block begins inside the value. -/
theorem mul_lt_of_lt_blockCount {length blockSize index : Nat}
    (h : index < blockCount length blockSize) : index * blockSize < length := by
  rw [blockCount] at h
  split at h
  · omega
  · have hpos : 0 < blockSize := by omega
    have hle : (index + 1) * blockSize ≤ length + (blockSize - 1) :=
      (Nat.le_div_iff_mul_le hpos).mp h
    rw [Nat.add_mul] at hle
    omega

/-- Blocks of size zero are not counted. -/
theorem pos_of_lt_blockCount {length blockSize index : Nat}
    (h : index < blockCount length blockSize) : 0 < blockSize := by
  rw [blockCount] at h
  split at h <;> omega

theorem lt_blockCount {length blockSize index : Nat} (hpos : 0 < blockSize)
    (h : index * blockSize < length) : index < blockCount length blockSize := by
  rw [blockCount, if_neg (by omega)]
  apply (Nat.le_div_iff_mul_le hpos).mpr
  rw [Nat.succ_mul]
  omega

/-- The blocks are as few as cover the value. -/
theorem blockCount_le_iff {length blockSize k : Nat} (hpos : 0 < blockSize) :
    blockCount length blockSize ≤ k ↔ length ≤ k * blockSize := by
  rw [← Nat.not_lt, ← Nat.not_lt]
  exact not_congr ⟨mul_lt_of_lt_blockCount, lt_blockCount hpos⟩

/-- No block is empty. -/
theorem blockCount_le (length blockSize : Nat) : blockCount length blockSize ≤ length := by
  refine Nat.le_of_not_lt fun h => ?_
  have hlast : length * blockSize < length := mul_lt_of_lt_blockCount h
  exact Nat.not_lt.mpr (Nat.le_mul_of_pos_right length (pos_of_lt_blockCount h)) hlast

/-- All blocks but the last are full, so as many blocks of `least` bytes exceed the value by one of
them at most. -/
theorem mul_blockCount_le (length : Nat) {least blockSize : Nat} (h : least ≤ blockSize) :
    least * blockCount length blockSize ≤ length + least := by
  cases hcount : blockCount length blockSize with
  | zero => exact Nat.zero_le _
  | succ last =>
    have hlast : last * blockSize < length := mul_lt_of_lt_blockCount (by omega)
    have hfull : last * least ≤ last * blockSize := Nat.mul_le_mul_left last h
    rw [Nat.mul_succ, Nat.mul_comm]
    omega

/-- An index of a block survives the four bytes that an instruction has for it. -/
theorem toNat_toUInt32_of_lt {count index : Nat} (hcount : count ≤ UInt32.size)
    (h : index < count) : index.toUInt32.toNat = index :=
  UInt32.toNat_ofNat_of_lt' (Nat.lt_of_lt_of_le h hcount)

theorem blocksFrom_eq (value : ByteArray) (blockSize : Nat) (h : 0 < blockSize) (k : Nat)
    (done : Array ByteArray) :
    (blocksFrom value blockSize h (k * blockSize) done).toList =
      done.toList ++ (List.range' k (blockCount value.size blockSize - k)).map
        (blockAt value blockSize) := by
  -- by what is left of the value: as long as a byte is left, the next block begins there
  induction hn : value.size - k * blockSize using Nat.strongRecOn generalizing k done with
  | _ n ih =>
    have hnext : (k + 1) * blockSize = k * blockSize + blockSize := Nat.succ_mul ..
    rw [blocksFrom]
    split
    case isTrue hlt =>
      have hk := lt_blockCount h hlt
      rw [← hnext, ih _ (by omega) (k + 1) _ rfl, hnext, ← blockAt_eq]
      rw [show blockCount value.size blockSize - k =
        blockCount value.size blockSize - (k + 1) + 1 by omega]
      simp [List.range'_succ]
    case isFalse hge =>
      have hk : blockCount value.size blockSize ≤ k :=
        Nat.le_of_not_lt fun hlt => hge (mul_lt_of_lt_blockCount hlt)
      simp [Nat.sub_eq_zero_of_le hk]

/-- The blocks of a value, from the first to the last, are those that the indices below the count
name. -/
theorem blocks_eq_map (value : ByteArray) (blockSize : Nat) :
    blocks value blockSize =
      (List.range (blockCount value.size blockSize)).map (blockAt value blockSize) := by
  rw [blocks]
  split
  case isTrue h =>
    have hfrom := blocksFrom_eq value blockSize h 0 #[]
    rw [Nat.zero_mul] at hfrom
    simp [hfrom, List.range_eq_range']
  case isFalse h =>
    simp [blockCount, show blockSize = 0 by omega]

theorem ofValue_eq_map (value : ByteArray) (blockSize : Nat) :
    Signature.ofValue value blockSize = (List.range (blockCount value.size blockSize)).map
      fun index => .ofBlock (blockAt value blockSize index) := by
  rw [Signature.ofValue, blocks_eq_map, List.map_map]
  rfl

/-! ### The index of a signature -/

namespace Index

/-- The blocks that the index groups under `weak`, in the order of their places. -/
def group (ix : Index) (weak : UInt32) : List (Nat × StrongHash) := ix.byWeak[weak]?.getD []

/-- The first entry of a group with the strong hash `strong`. -/
def pick (strong : StrongHash) (group : List (Nat × StrongHash)) : Option Nat :=
  (group.find? fun entry => entry.2 = strong).map (·.1)

theorem findIn_eq (ix : Index) (data : ByteArray) (start stop : Nat) (weak : UInt32) :
    ix.findIn data start stop weak =
      pick (strongHash (data.extract start stop)) (ix.group weak) := by
  rw [findIn, group]
  cases ix.byWeak[weak]? <;> rfl

theorem group_enter (ix : Index) (b : BlockSum) (i : Nat) (weak : UInt32) :
    (enter b i ix).group weak =
      if b.weak = weak then (i, b.strong) :: ix.group weak else ix.group weak := by
  simp only [group, enter, Std.HashMap.getElem?_alter, beq_iff_eq]
  split
  case isTrue h => rw [h, Option.getD_some]
  case isFalse h => rfl

theorem pick_cons (strong : StrongHash) (i : Nat) (h : StrongHash)
    (group : List (Nat × StrongHash)) :
    pick strong ((i, h) :: group) = if h = strong then some i else pick strong group := by
  rw [pick, List.find?_cons]
  by_cases hs : h = strong <;> simp [hs, pick]

/-- Looking a sum up in its group is looking it up in the list. The group of a weak checksum keeps
the blocks that have it in the order of their indices. -/
theorem pick_group_foldr (s : Signature) (b : BlockSum) (k : Nat) :
    pick b.strong (((s.zipIdx k).foldr (fun (c, i) ix => enter c i ix) ⟨∅⟩).group b.weak) =
      (s.idxOf? b).map (· + k) := by
  -- the first sum of the list is entered last, and so lies in front of its group
  induction s generalizing k with
  | nil => simp [group, pick]
  | cons c s ih =>
    rw [List.zipIdx_cons, List.foldr_cons, group_enter, List.idxOf?_cons]
    by_cases hc : c = b
    · simp [hc, pick_cons]
    · have hskip : ((s.idxOf? b).map (· + 1)).map (· + k) = (s.idxOf? b).map (· + (k + 1)) := by
        simp [Function.comp_def, Nat.add_comm, Nat.add_left_comm]
      simp only [beq_iff_eq, hc, ↓reduceIte, hskip, ← ih (k + 1)]
      split
      case isTrue hweak =>
        -- another sum in the same group has another strong hash
        have hstrong : c.strong ≠ b.strong := fun hstrong => hc (by cases c; cases b; simp_all)
        rw [pick_cons, if_neg hstrong]
      case isFalse => rfl

/-- An index finds a window at the lowest place of the signature that has its strong hash and the
weak checksum asked for, which need not be the window's. -/
theorem findIn_eq_idxOf? (s : Signature) (data : ByteArray) (start stop : Nat) (weak : UInt32) :
    (ofSignature s).findIn data start stop weak =
      s.idxOf? ⟨weak, strongHash (data.extract start stop)⟩ := by
  rw [findIn_eq, ofSignature]
  exact (pick_group_foldr s ⟨weak, strongHash (data.extract start stop)⟩ 0).trans (by simp)

/-- An index finds a window at the lowest place of the signature that has its sum. -/
theorem findIn_ofSignature (s : Signature) {data : ByteArray} {start stop : Nat}
    (h : start ≤ stop) (hstop : stop ≤ data.size) :
    (ofSignature s).findIn data start stop (Weak.ofRange data start stop).digest =
      s.idxOf? (.ofBlock (data.extract start stop)) := by
  obtain ⟨n, rfl⟩ := Nat.exists_eq_add_of_le h
  rw [findIn_eq_idxOf?, ← Weak.ofWindow_extract hstop, BlockSum.ofBlock]

theorem find_eq_idxOf? (s : Signature) (weak : UInt32) (window : ByteArray) :
    (ofSignature s).find weak window = s.idxOf? ⟨weak, strongHash window⟩ := by
  rw [find, findIn_eq_idxOf?, ByteArray.extract_zero_size]

end Index

/-- A window found in the signature of a value has the strong hash of the block found. -/
theorem strongHash_eq_of_idxOf? {value window : ByteArray} {blockSize index : Nat}
    (h : (Signature.ofValue value blockSize).idxOf? (.ofBlock window) = some index) :
    index < blockCount value.size blockSize ∧
      strongHash window = strongHash (blockAt value blockSize index) := by
  rw [ofValue_eq_map, List.idxOf?, List.findIdx?_eq_some_iff_getElem] at h
  obtain ⟨hlt, hsum, -⟩ := h
  rw [List.length_map, List.length_range] at hlt
  simp only [List.getElem_map, List.getElem_range, beq_iff_eq, BlockSum.ofBlock,
    BlockSum.mk.injEq] at hsum
  exact ⟨hlt, hsum.2.symm⟩

end DeltaMesh
