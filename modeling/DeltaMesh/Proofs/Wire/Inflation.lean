import DeltaMesh.Proofs.Delta.Replay
import DeltaMesh.Proofs.Lz4.Expansion
import DeltaMesh.Proofs.Wire.Size

/-!
# Payloads from anyone

Whoever sends a payload chooses its tag, the length that its block announces, the block, and the
fields in it with all their lengths. `Opens` goes through the payloads that there are: every row of
bytes is one of them (`opens_iff`), and the bytes in it are at most as many as came, or as
`maxInflated` (`Opens.size_le`). A list is read only if these bytes begin with it, so that it would
take no more bytes itself.

Main statement: this holds of deltas and of signatures, and everything else that could come is an
error (`guarded_decode`). For a delta out of a payload it follows that replaying it on a value that
thirty-two bits can count never runs out of room (`reconstruct_of_decodeDelta`).
-/

namespace DeltaMesh.Wire

/-! ### Every payload -/

/-- Opening a payload gives its list, as bytes, or says what is wrong with it. -/
inductive Opens : (p : ByteArray) → Except CodecError ByteArray → Prop
  | empty : Opens .empty (.error .emptyPayload)
  | plain (raw : ByteArray) : Opens (putByte tagPlain ++ raw) (.ok raw)
  | unknownTag {tag : UInt8} (hplain : tag ≠ tagPlain) (hblock : tag ≠ tagBlock)
      (body : ByteArray) : Opens (putByte tag ++ body) (.error (.unknownTag tag))
  | truncated {body : ByteArray} (h : body.size < 4) :
      Opens (putByte tagBlock ++ body) (.error .truncatedPayload)
  | oversized {size : Nat} (h : maxInflated < size) (hfit : size < Nat.pow 256 4)
      (block : ByteArray) : Opens (blockPayload size block) (.error (.oversizedPayload size))
  | malformed {size : Nat} {block : ByteArray} {why : Lz4.Fault} (h : size ≤ maxInflated)
      (hblock : Lz4.Expands block size 0 .empty (.error why)) :
      Opens (blockPayload size block) (.error (.block why))
  | block {size : Nat} {block raw : ByteArray} (h : size ≤ maxInflated)
      (hblock : Lz4.Expands block size 0 .empty (.ok raw)) :
      Opens (blockPayload size block) (.ok raw)

/-- A row that is long enough begins with a number. -/
theorem exists_putNumber {width : Nat} {b : ByteArray} (h : width ≤ b.size) :
    ∃ n rest, n < Nat.pow 256 width ∧ b = putNumber width n ++ rest := by
  have hlen : (b.extract 0 width).data.toList.length = width := by
    rw [length_toList, size_extract_zero h]
  refine ⟨ofLE (b.extract 0 width).data.toList, b.extract width b.size, ?_, ?_⟩
  · have hlt := ofLE_lt (b.extract 0 width).data.toList
    rwa [hlen] at hlt
  · have hdigits := leDigits_ofLE (b.extract 0 width).data.toList
    rw [hlen] at hdigits
    rw [putNumber, hdigits, toByteArray_toList, extract_zero_append b h,
      ByteArray.extract_zero_size]

/-- A payload that is not empty begins with its tag, whatever that may be. -/
theorem exists_tag {p : ByteArray} (h : p ≠ .empty) : ∃ tag body, p = putByte tag ++ body := by
  have hsize : 1 ≤ p.size := by
    refine Nat.pos_of_ne_zero fun hzero => h ?_
    exact ByteArray.size_eq_zero_iff.mp hzero
  obtain ⟨n, body, hn, rfl⟩ := exists_putNumber hsize
  have htag : n.toUInt8.toNat = n := UInt8.toNat_ofNat_of_lt' hn
  exact ⟨n.toUInt8, body, by rw [putByte, htag]⟩

/-- The first byte has to be one of two. -/
theorem openPayload_unknownTag {tag : UInt8} (hplain : tag ≠ tagPlain) (hblock : tag ≠ tagBlock)
    (body : ByteArray) : openPayload (putByte tag ++ body) = .error (.unknownTag tag) := by
  rw [openPayload, take?_tag]
  simp only [ofLE_putByte, if_neg hplain, if_neg hblock]

/-- A block payload without a whole length is refused. -/
theorem openPayload_truncated {body : ByteArray} (h : body.size < 4) :
    openPayload (putByte tagBlock ++ body) = .error .truncatedPayload := by
  have hbody : ((Cursor.start (putByte tagBlock ++ body)).ahead 1).take? 4 = none := by
    refine if_neg ?_
    simp only [Cursor.ahead, Cursor.start, ByteArray.size_append, size_putByte]
    omega
  rw [openPayload, take?_tag]
  simp only [ofLE_putByte]
  rw [if_neg (by decide), if_pos trivial, hbody]

/-- The relation describes what the decoder does, case by case; each case names the error that it
leads to. -/
theorem Opens.openPayload_eq {p : ByteArray} {r : Except CodecError ByteArray} (h : Opens p r) :
    openPayload p = r := by
  cases h with
  | empty => rfl
  | plain raw => exact openPayload_plain raw
  | unknownTag hplain hblock body => exact openPayload_unknownTag hplain hblock body
  | truncated h => exact openPayload_truncated h
  | oversized h hfit block => rw [openPayload_block block hfit, if_pos h]
  | @malformed size block _ h hblock | @block size block _ h hblock =>
    have hfit : size < Nat.pow 256 4 := Nat.lt_of_le_of_lt h (by decide)
    rw [openPayload_block block hfit, if_neg (Nat.not_lt.mpr h), Lz4.expands_iff.mp hblock]
    rfl

/-- A payload with the block tag falls into one of the cases. -/
theorem opens_tagBlock (body : ByteArray) :
    Opens (putByte tagBlock ++ body) (openPayload (putByte tagBlock ++ body)) := by
  rcases Nat.lt_or_ge body.size 4 with hshort | hlong
  · rw [openPayload_truncated hshort]
    exact .truncated hshort
  · -- the body is a length and a block
    obtain ⟨size, block, hfit, rfl⟩ := exists_putNumber hlong
    have hopen := openPayload_block block hfit
    rw [blockPayload] at hopen
    rw [hopen]
    split
    case isTrue h => exact .oversized h hfit block
    case isFalse h =>
      have hexpands := Lz4.expands_iff.mpr (Eq.refl (Lz4.expand block size))
      cases hexpand : Lz4.expand block size with
      | error why => exact .malformed (Nat.not_lt.mp h) (hexpand ▸ hexpands)
      | ok raw => exact .block (Nat.not_lt.mp h) (hexpand ▸ hexpands)

/-- Any row of bytes falls into one of the cases, so the decoder always gives a result. -/
theorem opens_openPayload (p : ByteArray) : Opens p (openPayload p) := by
  by_cases hempty : p = .empty
  · rw [hempty]
    exact .empty
  · obtain ⟨tag, body, rfl⟩ := exists_tag hempty
    by_cases hplain : tag = tagPlain
    · rw [hplain, openPayload_plain]
      exact .plain body
    by_cases hblock : tag = tagBlock
    · rw [hblock]
      exact opens_tagBlock body
    · rw [openPayload_unknownTag hplain hblock]
      exact .unknownTag hplain hblock body

theorem opens_iff {p : ByteArray} {r : Except CodecError ByteArray} :
    Opens p r ↔ openPayload p = r := by
  constructor
  · exact Opens.openPayload_eq
  · rintro rfl
    exact opens_openPayload p

/-- What a payload holds is at most as long as what came, or as any block may get. -/
theorem Opens.size_le {p raw : ByteArray} (h : Opens p (.ok raw)) :
    raw.size ≤ max (p.size - 1) maxInflated := by
  cases h with
  | plain =>
    rw [ByteArray.size_append, size_putByte, Nat.add_sub_cancel_left]
    exact Nat.le_max_left _ _
  | block h hblock =>
    have hroom := hblock.size_le rfl
    exact Nat.le_trans (Nat.le_trans hroom h) (Nat.le_max_right _ _)

/-! ### Reading a list from any payload -/

/-- What comes of reading a list from the payload `p`, whatever it is: `S` says how the list is
spelled, and `size` how long it is then. -/
structure Guarded {α : Type} (r : Reader α) (S : Spelling α) (size : α → Nat) (p : ByteArray)
    (read : Except CodecError α) : Prop where
  /-- A list is read just if the payload holds bytes that begin with it. -/
  ok_iff : ∀ a, read = .ok a ↔ ∃ raw w, Opens p (.ok raw) ∧ S a w ∧ w <+: raw.data.toList
  /-- The error says what is wrong with the payload or else with the bytes in it. -/
  error_iff : ∀ e, read = .error e ↔ Opens p (.error e) ∨
    ∃ raw why, Opens p (.ok raw) ∧ r.decode raw = .error why ∧ e = .fields why
  size_le : ∀ a, read = .ok a → size a ≤ max (p.size - 1) maxInflated

/-- How deltas are spelled. -/
def deltaSpelling : Spelling Delta :=
  written putDelta fun d => d.length < lengthBound ∧ ∀ i ∈ d, LiteralFits i

/-- How signatures are spelled. -/
def signatureSpelling : Spelling Signature :=
  written putSignature fun s => s.length < lengthBound ∧ ∀ b ∈ s, True

section

variable {α : Type} {r : Reader α} {S : Spelling α} {p : ByteArray}

/-- Reading succeeds if the payload opens and the fields of its list are well formed. -/
theorem readPayload_eq_ok_iff {a : α} :
    readPayload r p = .ok a ↔ ∃ raw, Opens p (.ok raw) ∧ r.decode raw = .ok a := by
  simp only [opens_iff, readPayload]
  cases openPayload p with
  | error e => simp [bind, Except.bind]
  | ok raw => cases hdecode : r.decode raw <;> simp [bind, Except.bind, Except.mapError, hdecode]

/-- Reading fails because the payload does not open, or because its fields make no list. -/
theorem readPayload_eq_error_iff {e : CodecError} : readPayload r p = .error e ↔
    Opens p (.error e) ∨
      ∃ raw why, Opens p (.ok raw) ∧ r.decode raw = .error why ∧ e = .fields why := by
  simp only [opens_iff, readPayload]
  cases openPayload p with
  | error e => simp [bind, Except.bind]
  | ok raw =>
    cases hdecode : r.decode raw <;>
      simp [bind, Except.bind, Except.mapError, hdecode, eq_comm (b := e)]

/-- The general guard, for any list whose reader consumes as many bytes as the list takes. -/
theorem guarded_readPayload (hr : r.Reads S) {size : α → Nat}
    (hsize : ∀ a w, S a w → size a = w.length) (p : ByteArray) :
    Guarded r S size p (readPayload r p) := by
  have hok : ∀ a, readPayload r p = .ok a ↔
      ∃ raw w, Opens p (.ok raw) ∧ S a w ∧ w <+: raw.data.toList := by
    intro a
    simp only [readPayload_eq_ok_iff, hr.decode_iff, exists_and_left]
  refine ⟨hok, fun e => readPayload_eq_error_iff, ?_⟩
  intro a ha
  -- the list is spelled inside the bytes that the payload holds
  obtain ⟨raw, w, hopens, hw, hbegin⟩ := (hok a).mp ha
  calc size a
    _ = w.length := hsize a w hw
    _ ≤ raw.data.toList.length := hbegin.length_le
    _ = raw.size := length_toList raw
    _ ≤ max (p.size - 1) maxInflated := hopens.size_le

end

/-- The guard for deltas; their size is counted instruction by instruction. -/
theorem guarded_decodeDelta (p : ByteArray) :
    Guarded (.items .instruction) deltaSpelling (fun d => 8 + (d.map instructionSize).sum) p
      (decodeDelta p) := by
  refine guarded_readPayload (Reader.reads_items reads_instruction) ?_ p
  rintro d w ⟨rfl, -⟩
  rw [length_toList, ← size_putDelta]
  rfl

/-- From whatever payload, a delta or a signature is read only if it would take no more bytes than
came or than a block may hold, and everything else is an error of the codec. Nothing is assumed of
the payload: it need not come from an encoder. -/
theorem guarded_decode (p : ByteArray) :
    Guarded (.items .instruction) deltaSpelling (fun d => 8 + (d.map instructionSize).sum) p
      (decodeDelta p) ∧
    Guarded (.items .blockSum) signatureSpelling (fun s => 8 + 20 * s.length) p
      (decodeSignature p) := by
  refine ⟨guarded_decodeDelta p, guarded_readPayload (Reader.reads_items reads_blockSum) ?_ p⟩
  rintro s w ⟨rfl, -⟩
  rw [length_toList, ← size_putSignature]
  rfl

/-- A match of eleven bytes makes twelve out of one, which are refused if only eleven were
announced. -/
example :
    decodeDelta ⟨#[1, 12, 0, 0, 0, 0x17, 0, 1, 0, 0]⟩ = .ok [] ∧
      decodeDelta ⟨#[1, 11, 0, 0, 0, 0x17, 0, 1, 0, 0]⟩ =
        .error (.block (.tooMuchOutput 11 12)) :=
  ⟨rfl, rfl⟩

/-! ### Replaying a delta out of a payload -/

section

variable {base : ByteArray} {blockSize : Nat}

/-- An instruction that names a block takes eight bytes itself, and a literal more than it says. -/
theorem size_bytesFrom_le (hbase : base.size ≤ UInt32.size) (i : Instruction) :
    (i.bytesFrom base blockSize).size ≤ instructionSize i * UInt32.size := by
  cases i with
  | literal bytes =>
    have hlarger : 12 + bytes.size ≤ (12 + bytes.size) * UInt32.size :=
      Nat.le_mul_of_pos_right _ (by decide)
    rw [Instruction.bytesFrom, instructionSize]
    omega
  | reference index =>
    rw [Instruction.bytesFrom, blockAt, ByteArray.size_extract, instructionSize]
    omega

/-- No instruction stands for more than a block, and no block is longer than the old value; so a
delta cannot stand for more than its size allows. -/
theorem length_content_le (hbase : base.size ≤ UInt32.size) (delta : Delta) :
    (delta.content base blockSize).length ≤ (delta.map instructionSize).sum * UInt32.size := by
  induction delta with
  | nil => exact Nat.zero_le _
  | cons i delta ih =>
    have hfirst : (i.bytesFrom base blockSize).size ≤ instructionSize i * UInt32.size :=
      size_bytesFrom_le hbase i
    rw [Delta.length_content_cons, List.map_cons, List.sum_cons, Nat.add_mul]
    omega

/-- The room that replaying takes plays no part for a delta out of a payload that is no longer than
a block may get, on a value that thirty-two bits can count: a replica may rebuild the value without
regard to it. -/
theorem reconstruct_of_decodeDelta (overflow : Overflow) {p : ByteArray} {delta : Delta}
    (h : decodeDelta p = .ok delta) (hp : p.size ≤ maxInflated) (hbase : base.size ≤ UInt32.size) :
    reconstruct overflow base delta blockSize =
      (rebuild base delta blockSize).mapError .outOfRange := by
  have hsize : 8 + (delta.map instructionSize).sum ≤ max (p.size - 1) maxInflated :=
    (guarded_decodeDelta p).size_le delta h
  have hinflated : (delta.map instructionSize).sum ≤ maxInflated := by omega
  refine reconstruct_eq_rebuild overflow ?_
  calc (delta.content base blockSize).length
    _ ≤ (delta.map instructionSize).sum * UInt32.size := length_content_le hbase delta
    _ ≤ maxInflated * UInt32.size := Nat.mul_le_mul_right _ hinflated
    _ ≤ maxRoom := by decide

end

end DeltaMesh.Wire
