import DeltaMesh.Proofs.Delta.RoundTrip

/-!
# Replaying a delta from anywhere

A delta may have been made by anyone: its references may point anywhere, its literals may have any
length, and it may name the same block so often that no value is as long as what it stands for.

What a delta stands for is said on rows of bytes (`Delta.content`): its literals, and of the value
the bytes from `index * blockSize` up to `(index + 1) * blockSize` or the end. Rebuilding goes
through the delta twice. What the first pass comes to is that length, less the bits that do not fit
(`Delta.measure_of_inRange`). The second pass makes every check once more, and none of them fails:
it runs out of room if the length is more than a value can have, and for no other reason
(`Delta.copy_of_inRange`).

Main statement: rebuilding gives exactly what the delta stands for as long as a value can have that
length, and fails otherwise, exactly at the first reference that is out of range if there is one
(`reconstruct_exact`).
-/

namespace DeltaMesh

/-! ### What a delta stands for -/

/-- The bytes that an instruction stands for. -/
def Instruction.content (base : ByteArray) (blockSize : Nat) : Instruction → List UInt8
  | .literal bytes => bytes.data.toList
  | .reference index =>
    (base.data.toList.take ((index.toNat + 1) * blockSize)).drop (index.toNat * blockSize)

namespace Delta

/-- The bytes that a delta stands for. -/
def content (base : ByteArray) (blockSize : Nat) (delta : Delta) : List UInt8 :=
  delta.flatMap (Instruction.content base blockSize)

/-- `why` names the first reference that is out of range. -/
def Strays (base : ByteArray) (blockSize : Nat) (delta : Delta) (why : OutOfRange) : Prop :=
  why.blocks = blockCount base.size blockSize ∧ why.blocks ≤ why.index.toNat ∧
    ∃ before after, delta = before ++ .reference why.index :: after ∧
      Delta.InRange base blockSize before

end Delta

section

variable {base : ByteArray} {blockSize : Nat} {delta rest : Delta} {why : OutOfRange}
  {overflow : Overflow}

/-! ### The first reference that is out of range -/

/-- A delta that is not in range has a first reference that is not, with instructions in range
before it. -/
theorem Delta.inRange_or_strays (base : ByteArray) (blockSize : Nat) (delta : Delta) :
    delta.InRange base blockSize ∨ ∃ why, delta.Strays base blockSize why := by
  induction delta with
  | nil => exact .inl fun index hmem => absurd hmem List.not_mem_nil
  | cons i delta ih =>
    by_cases hi : ∀ index, .reference index = i → index.toNat < blockCount base.size blockSize
    · rcases ih with hrange | ⟨why, hblocks, hge, before, after, rfl, hbefore⟩
      · exact .inl (inRange_cons.mpr ⟨hi, hrange⟩)
      · exact .inr ⟨why, hblocks, hge, i :: before, after, rfl, inRange_cons.mpr ⟨hi, hbefore⟩⟩
    · obtain ⟨index, hindex⟩ := Classical.not_forall.mp hi
      obtain ⟨rfl, hge⟩ := Classical.not_imp.mp hindex
      refine .inr ⟨⟨index, _⟩, rfl, Nat.not_lt.mp hge, [], delta, rfl, ?_⟩
      intro index hmem
      cases hmem

/-! ### The bytes, and how many they are -/

/-- The bytes that an instruction stands for, as a list. -/
theorem Instruction.toList_bytesFrom (i : Instruction) :
    (i.bytesFrom base blockSize).data.toList = i.content base blockSize := by
  cases i with
  | literal bytes => rfl
  | reference index =>
    rw [bytesFrom, blockAt_eq, toList_data_extract, content, List.drop_take, Nat.succ_mul]

/-- Replaying puts the content of the delta behind what is there already. Everything about the
rebuilt value is read off this list. -/
theorem Delta.toList_replay (delta : Delta) (out : ByteArray) :
    (delta.replay base blockSize out).data.toList =
      out.data.toList ++ delta.content base blockSize := by
  refine toList_foldl (fun out i => ?_) delta out
  rw [ByteArray.toList_data_append, Instruction.toList_bytesFrom]

/-- Each instruction adds as many bytes as it stands for. -/
theorem Delta.size_replay (delta : Delta) (out : ByteArray) :
    (delta.replay base blockSize out).size =
      out.size + (delta.content base blockSize).length := by
  rw [← length_toList, toList_replay, List.length_append, length_toList]

theorem Delta.length_content_cons (i : Instruction) (delta : Delta) :
    (content base blockSize (i :: delta)).length =
      (i.bytesFrom base blockSize).size + (delta.content base blockSize).length := by
  rw [content, List.flatMap_cons, List.length_append, ← i.toList_bytesFrom, length_toList]
  rfl

theorem Delta.length_content_append (delta rest : Delta) :
    (content base blockSize (delta ++ rest)).length =
      (delta.content base blockSize).length + (rest.content base blockSize).length := by
  rw [content, List.flatMap_append, List.length_append]
  rfl

/-- An addition of lengths gives their sum modulo 2⁶⁴, or panics if that is not the sum. -/
theorem Overflow.add_cases (overflow : Overflow) (total : UInt64) (length : Nat) :
    (∃ sum, overflow.add total length = .ok sum ∧
      sum.toNat = (total.toNat + length) % UInt64.size) ∨
    overflow = .panics ∧ UInt64.size ≤ total.toNat + length ∧
      overflow.add total length = .error .noRoom := by
  have hsum : (total + length.toUInt64).toNat = (total.toNat + length) % UInt64.size := by
    rw [UInt64.toNat_add, UInt64.toNat_ofNat', Nat.add_mod_mod]
  cases overflow with
  | wraps => exact .inl ⟨_, rfl, hsum⟩
  | panics =>
    by_cases hfits : total.toNat + length < UInt64.size
    · exact .inl ⟨_, if_pos hfits, hsum⟩
    · exact .inr ⟨rfl, Nat.not_lt.mp hfits, if_neg hfits⟩

/-- The first pass adds the length of an instruction that is in range and goes on; whether the sum
still fits a word is decided at each addition. -/
theorem Delta.measure_cons {i : Instruction} (total : UInt64)
    (h : ∀ index, .reference index = i → index.toNat < blockCount base.size blockSize) :
    Delta.measure overflow base blockSize (i :: delta) total =
      overflow.add total (i.bytesFrom base blockSize).size >>=
        delta.measure overflow base blockSize := by
  rw [measure, List.foldlM_cons, Instruction.measure_eq_ok h]
  rfl

/-- What the first pass counts of references that are in range, added to `total`, is the length of
what they stand for modulo 2⁶⁴; it panics if that is not the length, and only if the program was
built to. -/
theorem Delta.measure_of_inRange (overflow : Overflow) (h : delta.InRange base blockSize)
    (total : UInt64) :
    (∃ sum, delta.measure overflow base blockSize total = .ok sum ∧
      sum.toNat = (total.toNat + (delta.content base blockSize).length) % UInt64.size) ∨
    overflow = .panics ∧ UInt64.size ≤ total.toNat + (delta.content base blockSize).length ∧
      delta.measure overflow base blockSize total = .error .noRoom := by
  induction delta generalizing total with
  | nil => exact .inl ⟨total, rfl, (Nat.mod_eq_of_lt total.toNat_lt).symm⟩
  | cons i delta ih =>
    obtain ⟨hi, hrest⟩ := inRange_cons.mp h
    rw [measure_cons total hi, length_content_cons, ← Nat.add_assoc]
    rcases overflow.add_cases total (i.bytesFrom base blockSize).size with
      ⟨sum, hadd, hsum⟩ | ⟨hpanics, hlong, hadd⟩
    · -- the sum so far, which may have lost bits, is what the rest is added to
      simp only [hadd, bind, Except.bind]
      rcases ih hrest sum with ⟨last, hmeasure, hlast⟩ | ⟨hpanics, hlong, hmeasure⟩
      · refine .inl ⟨last, hmeasure, ?_⟩
        rw [hlast, hsum, Nat.mod_add_mod]
      · refine .inr ⟨hpanics, ?_, hmeasure⟩
        have hle := Nat.mod_le (total.toNat + (i.bytesFrom base blockSize).size) UInt64.size
        omega
    · refine .inr ⟨hpanics, by omega, ?_⟩
      simp only [hadd, bind, Except.bind]

/-- A reference to a block that the old value does not have ends the first pass. -/
theorem Instruction.measure_of_ge {index : UInt32}
    (h : blockCount base.size blockSize ≤ index.toNat) :
    (Instruction.reference index).measure base blockSize =
      .error ⟨index, blockCount base.size blockSize⟩ := by
  rw [measure, blockRange, if_neg (Nat.not_lt.mpr h)]
  rfl

/-- The first pass goes up to the first reference that is out of range, unless the sum of the
lengths has panicked before. -/
theorem Delta.measure_of_strays (overflow : Overflow) (h : delta.Strays base blockSize why) :
    delta.measure overflow base blockSize 0 = .error (.outOfRange why) ∨
    overflow = .panics ∧ UInt64.size ≤ (delta.content base blockSize).length ∧
      delta.measure overflow base blockSize 0 = .error .noRoom := by
  obtain ⟨index, blocks⟩ := why
  obtain ⟨rfl, hge, before, after, rfl, hbefore⟩ := h
  have hbehind : Delta.measure overflow base blockSize (before ++ .reference index :: after) 0 =
      before.measure overflow base blockSize 0 >>=
        Delta.measure overflow base blockSize (.reference index :: after) := by
    rw [measure, List.foldlM_append]
    rfl
  rw [hbehind, length_content_append]
  rcases measure_of_inRange overflow hbefore 0 with ⟨sum, hcounted, -⟩ | ⟨hpanics, hlong, hcounted⟩
  · -- what has been counted plays no part
    left
    simp only [hcounted, bind, Except.bind]
    rw [measure, List.foldlM_cons, Instruction.measure_of_ge hge]
    rfl
  · have hnone : (0 : UInt64).toNat = 0 := rfl
    refine .inr ⟨hpanics, by omega, ?_⟩
    simp only [hcounted, bind, Except.bind]

/-! ### The second pass -/

/-- The bounds of a block that the value has are bounds of the value. -/
theorem slice_block {index : Nat} (h : index < blockCount base.size blockSize) :
    slice base (blockStart blockSize index) (blockStop base.size blockSize index) =
      .ok (blockAt base blockSize index) := by
  have hstart : blockStart blockSize index < base.size := mul_lt_of_lt_blockCount h
  rw [slice, if_pos]
  · rfl
  · rw [blockStop]
    omega

/-- In the second pass the checks of the index and of the bounds hold for what the first pass has
let through, so that only the room is in question. -/
theorem Instruction.copy_of_inRange {i : Instruction} (out : ByteArray)
    (h : ∀ index, .reference index = i → index.toNat < blockCount base.size blockSize) :
    i.copy base blockSize out = extend out (i.bytesFrom base blockSize) := by
  cases i with
  | literal bytes => rfl
  | reference index =>
    have hlt := h index rfl
    rw [copy, blockRange_of_lt hlt]
    change (slice base (blockStart blockSize index.toNat)
      (blockStop base.size blockSize index.toNat) >>= extend out) = _
    rw [slice_block hlt]
    rfl

/-- No check of the second pass fails on references that are in range: it copies what they stand for
behind `out`, and runs out of room if that is too long for a value. -/
theorem Delta.copy_of_inRange (h : delta.InRange base blockSize) {out : ByteArray}
    (hout : out.size ≤ maxRoom) : delta.copy base blockSize out =
      if (delta.replay base blockSize out).size ≤ maxRoom
        then .ok (delta.replay base blockSize out) else .error .noRoom := by
  induction delta generalizing out with
  | nil => exact (if_pos hout).symm
  | cons i delta ih =>
    obtain ⟨hi, hrest⟩ := inRange_cons.mp h
    have hcons : Delta.replay base blockSize (i :: delta) out =
        Delta.replay base blockSize delta (out ++ i.bytesFrom base blockSize) := rfl
    rw [copy, List.foldlM_cons, Instruction.copy_of_inRange out hi, extend, hcons]
    by_cases hroom : out.size + (i.bytesFrom base blockSize).size ≤ maxRoom
    · rw [if_pos hroom]
      exact ih hrest (by rwa [ByteArray.size_append])
    · -- what is behind it only adds to the length
      have hlong : ¬(Delta.replay base blockSize delta (out ++ i.bytesFrom base blockSize)).size ≤
          maxRoom := by
        rw [size_replay, ByteArray.size_append]
        omega
      rw [if_neg hroom, if_neg hlong]
      rfl

/-! ### The value alone -/

/-- The first stray reference of a delta is the one that is reported. -/
theorem Delta.check_of_strays (h : delta.Strays base blockSize why) :
    delta.check base blockSize = .error why := by
  obtain ⟨index, blocks⟩ := why
  obtain ⟨rfl, hge, before, after, rfl, hbefore⟩ := h
  have hchecked := check_eq_ok hbefore
  rw [check] at hchecked ⊢
  rw [List.forM_append, hchecked]
  simp only [bind, Except.bind]
  rw [List.forM_cons, Instruction.measure_of_ge hge]
  rfl

/-- A delta with a stray reference rebuilds nothing, whatever stands behind that reference. -/
theorem rebuild_of_strays (h : delta.Strays base blockSize why) :
    rebuild base delta blockSize = .error why := by
  rw [rebuild, Delta.check_of_strays h]
  rfl

/-- Without regard to room a delta rebuilds a value if and only if all its references are in range.
-/
theorem rebuild_eq_ok_iff {value : ByteArray} : rebuild base delta blockSize = .ok value ↔
    delta.InRange base blockSize ∧ value = delta.replay base blockSize .empty := by
  constructor
  · intro h
    rcases delta.inRange_or_strays base blockSize with hrange | ⟨first, hfirst⟩
    · rw [rebuild_of_inRange hrange] at h
      exact ⟨hrange, (Except.ok.inj h).symm⟩
    · rw [rebuild_of_strays hfirst] at h
      cases h
  · rintro ⟨hrange, rfl⟩
    exact rebuild_of_inRange hrange

/-- What has been rebuilt is what the delta stands for. -/
theorem toList_of_rebuild {value : ByteArray} (h : rebuild base delta blockSize = .ok value) :
    value.data.toList = delta.content base blockSize := by
  obtain ⟨-, rfl⟩ := rebuild_eq_ok_iff.mp h
  exact Delta.toList_replay delta .empty

/-! ### A delta for one value, replayed on another -/

/-- An instruction in front of a delta adds its own length and its own bytes. -/
theorem Delta.content_cons_within {i : Instruction} {P : UInt8 → Prop} {n m : Nat}
    (hsize : (i.bytesFrom base blockSize).size ≤ n) (hbytes : ∀ b ∈ i.content base blockSize, P b)
    (h : (delta.content base blockSize).length ≤ m ∧ ∀ b ∈ delta.content base blockSize, P b) :
    (content base blockSize (i :: delta)).length ≤ n + m ∧
      ∀ b ∈ content base blockSize (i :: delta), P b := by
  constructor
  · rw [length_content_cons]
    exact Nat.add_le_add hsize h.1
  · intro b hb
    rw [content, List.flatMap_cons] at hb
    exact (List.mem_append.mp hb).elim (hbytes b) (h.2 b)

/-- The segments of a value name blocks that may have changed by now. Whatever they are replayed on,
they give no more than one block for each byte that they cover, and no bytes but those of the value
and of what they are replayed on. -/
theorem Delta.content_of_tiles {s : Signature} {value : ByteArray} {start stop : Nat}
    {l : List Segment} (hpos : 0 < blockSize) (h : Tiles s value start stop l) :
    (content base blockSize (l.map (Segment.instruction value))).length ≤
        (stop - start) * blockSize ∧
      ∀ b ∈ content base blockSize (l.map (Segment.instruction value)),
        b ∈ value.data.toList ∨ b ∈ base.data.toList := by
  induction h with
  | nil pos => exact ⟨Nat.zero_le _, fun b hb => absurd hb List.not_mem_nil⟩
  | @literal start mid stop rest hlt tail ih =>
    have hsplit : stop - start = mid - start + (stop - mid) := by
      have hle := tail.le
      omega
    rw [List.map_cons, hsplit, Nat.add_mul]
    refine content_cons_within ?_ (fun b hb => .inl ?_) ih
    · have hbytes : (value.extract start mid).size ≤ mid - start := by
        rw [ByteArray.size_extract]
        omega
      exact Nat.le_trans hbytes (Nat.le_mul_of_pos_right _ hpos)
    · have hmem : b ∈ (value.extract start mid).data.toList := hb
      rw [toList_data_extract] at hmem
      exact List.mem_of_mem_drop (List.mem_of_mem_take hmem)
  | @reference block start mid stop rest hlt hit tail ih =>
    have hsplit : stop - start = mid - start + (stop - mid) := by
      have hle := tail.le
      omega
    rw [List.map_cons, hsplit, Nat.add_mul]
    refine content_cons_within ?_ (fun b hb => .inr ?_) ih
    · have hblock : blockSize ≤ (mid - start) * blockSize :=
        Nat.le_mul_of_pos_left blockSize (Nat.sub_pos_of_lt hlt)
      rw [Segment.instruction, Instruction.bytesFrom, blockAt_eq, ByteArray.size_extract]
      omega
    · exact List.mem_of_mem_take (List.mem_of_mem_drop hb)

/-- A delta for `value` that meets another value than the one it was made against. -/
theorem rebuild_stale {signature : Signature} {value out : ByteArray} {windowSize : Nat}
    (hpos : 0 < blockSize)
    (h : rebuild base (diff signature value windowSize) blockSize = .ok out) :
    out.size ≤ value.size * blockSize ∧
      ∀ b ∈ out.data.toList, b ∈ value.data.toList ∨ b ∈ base.data.toList := by
  have htiles := segments_tile signature value windowSize
  have hdelta : (Delta.content base blockSize (diff signature value windowSize)).length ≤
      (value.size - 0) * blockSize ∧
        ∀ b ∈ Delta.content base blockSize (diff signature value windowSize), _ :=
    Delta.content_of_tiles hpos htiles
  rwa [← toList_of_rebuild h, Nat.sub_zero, length_toList] at hdelta

/-! ### Both passes together -/

/-- Room can be set aside up to the length that a value can have. -/
theorem setAside_of_le {total : UInt64} (h : total.toNat ≤ maxRoom) :
    setAside total = .ok .empty :=
  if_pos h

/-- The second pass as a whole: it builds the value, or comes to the end of the room. It does not
matter where in the delta that happens. -/
theorem copy_empty_of_inRange (h : delta.InRange base blockSize) :
    delta.copy base blockSize .empty =
      if (delta.content base blockSize).length ≤ maxRoom
        then .ok (delta.replay base blockSize .empty) else .error .noRoom := by
  have hempty : ByteArray.empty.size ≤ maxRoom := by decide
  rw [Delta.copy_of_inRange h hempty, Delta.size_replay, ByteArray.size_empty, Nat.zero_add]

/-- As long as a value can have the length of what the delta stands for, the first pass counts that
length, as much room is set aside, and the second pass fills it. -/
theorem passes_of_inRange (overflow : Overflow) (h : delta.InRange base blockSize)
    (hroom : (delta.content base blockSize).length ≤ maxRoom) :
    ∃ total, delta.measure overflow base blockSize 0 = .ok total ∧
      total.toNat = (delta.replay base blockSize .empty).size ∧ setAside total = .ok .empty ∧
        delta.copy base blockSize .empty = .ok (delta.replay base blockSize .empty) := by
  have hnone : (0 : UInt64).toNat = 0 := rfl
  have hfits : maxRoom < UInt64.size := by decide
  have hsize : (delta.replay base blockSize .empty).size =
      (delta.content base blockSize).length := by
    rw [Delta.size_replay, ByteArray.size_empty, Nat.zero_add]
  rcases Delta.measure_of_inRange overflow h 0 with ⟨total, hmeasure, htotal⟩ | ⟨-, hlong, -⟩
  · rw [hnone, Nat.zero_add, Nat.mod_eq_of_lt (Nat.lt_of_le_of_lt hroom hfits)] at htotal
    refine ⟨total, hmeasure, htotal.trans hsize.symm, setAside_of_le (htotal ▸ hroom), ?_⟩
    rw [copy_empty_of_inRange h, if_pos hroom]
  · omega

/-- References that are in range leave nothing but room to fail for. It does not matter which of the
two passes notices that there is none, nor what the overflow of the sum does. -/
theorem reconstruct_of_inRange (overflow : Overflow) (h : delta.InRange base blockSize) :
    reconstruct overflow base delta blockSize =
      if (delta.content base blockSize).length ≤ maxRoom
        then .ok (delta.replay base blockSize .empty) else .error .noRoom := by
  rw [reconstruct]
  by_cases hroom : (delta.content base blockSize).length ≤ maxRoom
  · obtain ⟨total, hmeasure, -, hset, hcopy⟩ := passes_of_inRange overflow h hroom
    rw [if_pos hroom]
    simp only [hmeasure, hset, hcopy, bind, Except.bind]
  · have hcopy := copy_empty_of_inRange h
    rw [if_neg hroom] at hcopy ⊢
    rcases Delta.measure_of_inRange overflow h 0 with ⟨total, hmeasure, -⟩ | ⟨-, -, hmeasure⟩
    · -- a sum that has lost bits may let the first pass through
      by_cases hset : total.toNat ≤ maxRoom
      · simp only [hmeasure, setAside_of_le hset, hcopy, bind, Except.bind]
      · simp only [hmeasure, setAside, if_neg hset, bind, Except.bind]
    · simp only [hmeasure, bind, Except.bind]

/-- A stray reference is reported unless the sum of the lengths before it has overflowed; where sums
wrap around it is always reported. -/
theorem reconstruct_of_strays (h : delta.Strays base blockSize why)
    (hcounted : overflow = .wraps ∨ (delta.content base blockSize).length < UInt64.size) :
    reconstruct overflow base delta blockSize = .error (.outOfRange why) := by
  rw [reconstruct]
  rcases Delta.measure_of_strays overflow h with hmeasure | ⟨rfl, hlong, -⟩
  · rw [hmeasure]
    rfl
  · rcases hcounted with hwraps | hshort
    · cases hwraps
    · omega

/-- As long as a value can have the length of what the delta stands for, room plays no part. -/
theorem reconstruct_eq_rebuild (overflow : Overflow)
    (h : (delta.content base blockSize).length ≤ maxRoom) :
    reconstruct overflow base delta blockSize =
      (rebuild base delta blockSize).mapError .outOfRange := by
  rcases delta.inRange_or_strays base blockSize with hrange | ⟨why, hstrays⟩
  · rw [reconstruct_of_inRange overflow hrange, if_pos h, rebuild_of_inRange hrange]
    rfl
  · have hcounted : (delta.content base blockSize).length < UInt64.size :=
      Nat.lt_of_le_of_lt h (by decide)
    rw [reconstruct_of_strays hstrays (.inr hcounted), rebuild_of_strays hstrays]
    rfl

end

end DeltaMesh
