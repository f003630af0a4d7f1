import DeltaMesh.Proofs.Lz4.Run
import DeltaMesh.Proofs.Wire.Field
import DeltaMesh.Wire.Payload

/-!
# Lists survive their payloads

A delta or a signature that is shorter than four gibibytes on the wire comes out of its payload as
it was, whether the payload holds it as it is or as an LZ4 block; the only other outcome is that
the payload is refused because the list is longer than `maxInflated`.

Main statements: `openPayload_payload`, for any row of bytes, and `carried_encode`, for deltas and
signatures.
-/

namespace DeltaMesh.Wire

/-! ### Opening a payload -/

/-- The payload of `raw` is an LZ4 block. -/
abbrev Deflates (raw : ByteArray) : Prop :=
  compressFrom < raw.size ∧ (deflated raw).size < raw.size

/-- The two branches of the encoder, by the property `Deflates` instead of by what it computes. -/
theorem payload_eq (raw : ByteArray) : payload raw =
    if Deflates raw then putByte tagBlock ++ deflated raw else putByte tagPlain ++ raw := by
  rw [payload]
  by_cases hlong : compressFrom < raw.size <;> simp [Deflates, hlong]

theorem size_putByte (t : UInt8) : (putByte t).size = 1 := Reader.size_putNumber 1 t.toNat

/-- The tag of a payload is its first byte, and the body lies behind it. -/
theorem take?_tag (t : UInt8) (body : ByteArray) :
    (Cursor.start (putByte t ++ body)).take? 1 =
      some (putByte t, (Cursor.start (putByte t ++ body)).ahead 1) :=
  (Cursor.take?_iff (Nat.zero_le _)).mpr
    ⟨size_putByte t, ⟨_, ByteArray.toList_data_append⟩, rfl⟩

theorem ofLE_putByte (t : UInt8) : (ofLE (putByte t).data.toList).toUInt8 = t := by
  rw [putByte, putNumber, List.data_toByteArray, ofLE_leDigits, Nat.mod_eq_of_lt t.toNat_lt,
    Nat.toUInt8, UInt8.ofNat_toNat]

theorem extract_behind (a b : ByteArray) {n : Nat} (hn : a.size = n) :
    (a ++ b).extract n (a ++ b).size = b :=
  ByteArray.extract_append_eq_right hn.symm ByteArray.size_append

/-- Behind the plain tag the payload is the raw list as it stands. -/
theorem openPayload_plain (raw : ByteArray) :
    openPayload (putByte tagPlain ++ raw) = .ok raw := by
  rw [openPayload, take?_tag]
  simp only [ofLE_putByte, ↓reduceIte]
  rw [extract_behind (putByte tagPlain) raw (size_putByte _)]

/-- The payload of a block that announces `size` bytes. -/
def blockPayload (size : Nat) (block : ByteArray) : ByteArray :=
  putByte tagBlock ++ (putNumber 4 size ++ block)

/-- Behind the block tag the announced length decides before anything is expanded: what is too long
is refused, and what is not is handed to the expander with that length as its bound. -/
theorem openPayload_block {size : Nat} (block : ByteArray) (h : size < Nat.pow 256 4) :
    openPayload (blockPayload size block) =
      if maxInflated < size then .error (.oversizedPayload size)
      else (Lz4.expand block size).mapError .block := by
  have hbody : ((Cursor.start (blockPayload size block)).ahead 1).take? 4 =
      some (putNumber 4 size, (Cursor.start (blockPayload size block)).ahead 5) := by
    refine (Cursor.take?_iff ?_).mpr
      ⟨Reader.size_putNumber 4 _, ⟨block.data.toList, ?_⟩, rfl⟩
    · show 1 ≤ (blockPayload size block).size
      rw [blockPayload, ByteArray.size_append, size_putByte]
      exact Nat.le_add_right 1 _
    · exact (Cursor.rest_append _ _ (size_putByte _)).trans ByteArray.toList_data_append
  have hsize : ofLE (putNumber 4 size).data.toList = size := by
    rw [putNumber, List.data_toByteArray, ofLE_leDigits, Nat.mod_eq_of_lt h]
  have hblock : (blockPayload size block).extract 5 (blockPayload size block).size = block := by
    rw [blockPayload, ← ByteArray.append_assoc]
    refine extract_behind _ _ ?_
    rw [ByteArray.size_append, size_putByte, Reader.size_putNumber]
  have htag : (Cursor.start (blockPayload size block)).take? 1 =
      some (putByte tagBlock, (Cursor.start (blockPayload size block)).ahead 1) :=
    take?_tag tagBlock _
  rw [openPayload, htag]
  simp only [ofLE_putByte]
  rw [if_neg (by decide), if_pos trivial, hbody]
  simp only [hsize, hblock]

/-- What the encoder deflates comes back, unless it is longer than any payload may announce. The
length has four bytes, so a list of `256 ^ 4` bytes or more would announce another one. -/
theorem openPayload_deflated {raw : ByteArray} (h : raw.size < Nat.pow 256 4) :
    openPayload (putByte tagBlock ++ deflated raw) =
      if maxInflated < raw.size then .error (.oversizedPayload raw.size) else .ok raw := by
  have hopen := openPayload_block (Lz4.compress raw) h
  rw [Lz4.expand_compress] at hopen
  exact hopen

/-- A list that travels as a block has a length that the four bytes in front of it can tell. -/
def LengthTold (raw : ByteArray) : Prop := Deflates raw → raw.size < UInt32.size

/-- The payload of `raw` is refused: it is a block and announces too many bytes. -/
abbrev Refused (raw : ByteArray) : Prop := Deflates raw ∧ maxInflated < raw.size

/-- A list that is not refused for its size announces its true length. -/
theorem lengthTold_of_size {raw : ByteArray} (h : raw.size ≤ maxInflated) : LengthTold raw :=
  fun _ => Nat.lt_of_le_of_lt h (by decide)

theorem not_refused_of_size {raw : ByteArray} (h : raw.size ≤ maxInflated) : ¬Refused raw :=
  fun hrefused => Nat.not_lt.mpr h hrefused.2

/-- Either branch of the encoder is undone by the decoder; a list that is too long and was deflated
is the one exception. -/
theorem openPayload_payload {raw : ByteArray} (h : LengthTold raw) :
    openPayload (payload raw) = if Refused raw then
      .error (.oversizedPayload raw.size) else .ok raw := by
  rw [payload_eq]
  by_cases hblock : Deflates raw
  · rw [if_pos hblock, openPayload_deflated (h hblock)]
    by_cases hlong : maxInflated < raw.size
    · rw [if_pos hlong, if_pos ⟨hblock, hlong⟩]
    · rw [if_neg hlong, if_neg (hlong ·.2)]
  · rw [if_neg hblock, if_neg (hblock ·.1), openPayload_plain]

/-- Deflating is never chosen where it makes a list longer: a payload has at most the tag besides.
-/
theorem size_payload_le (raw : ByteArray) : (payload raw).size ≤ raw.size + 1 := by
  rw [payload_eq]
  split
  case isTrue hblock =>
    have hshort := hblock.2
    rw [ByteArray.size_append, size_putByte]
    omega
  case isFalse =>
    rw [ByteArray.size_append, size_putByte]
    omega

/-- A list is at most as long as its payload, unless that is a block. -/
theorem size_lt_of_payload {raw : ByteArray} {bound : Nat} (htold : LengthTold raw)
    (hbound : UInt32.size ≤ bound) (h : (payload raw).size < bound) : raw.size < bound := by
  by_cases hblock : Deflates raw
  · exact Nat.lt_of_lt_of_le (htold hblock) hbound
  · rw [payload_eq, if_neg hblock, ByteArray.size_append] at h
    exact Nat.lt_of_le_of_lt (Nat.le_add_left _ _) h

/-- The first byte tells which branch was taken. -/
theorem head?_payload (raw : ByteArray) : (payload raw).data.toList.head? =
    some (if Deflates raw then tagBlock else tagPlain) := by
  have htag (t : UInt8) (body : ByteArray) :
      (putByte t ++ body).data.toList.head? = some t := by
    rw [ByteArray.toList_data_append, putByte, putNumber, List.data_toByteArray, leDigits,
      List.cons_append, List.head?_cons, Nat.toUInt8, UInt8.ofNat_toNat]
  rw [payload_eq]
  split
  · exact htag _ _
  · exact htag _ _

/-! ### Lists in payloads -/

/-- What becomes of a list that is written as `raw` and travels in the payload `p`: it is read as
it was, unless it is longer than any payload may be, and the payload is at most its tag longer
than the list. -/
structure Carried {α : Type} (raw : ByteArray) (list : α) (p : ByteArray)
    (read : Except CodecError α) : Prop where
  ok_or_oversized : read = .ok list ∨
    maxInflated < raw.size ∧ read = .error (.oversizedPayload raw.size)
  ok : raw.size ≤ maxInflated → read = .ok list
  size_le : p.size ≤ raw.size + 1
  tag : p.data.toList.head? = some (if Deflates raw then tagBlock else tagPlain)

variable {α : Type} {r : Reader α} {put : α → ByteArray} {fits : α → Prop}

/-- Reading back a payload of any list whose fields the reader reads back. -/
theorem readPayload_payload (hr : r.Reads (written put fits)) {list : α} (hfits : fits list)
    (htold : LengthTold (put list)) :
    readPayload r (payload (put list)) = if Refused (put list) then
      .error (.oversizedPayload (put list).size) else .ok list := by
  -- the bytes that come out of the payload are the ones that were written
  have hdec : r.decode (put list) = .ok list :=
    (hr.decode_iff _ _).mpr ⟨_, ⟨rfl, hfits⟩, List.prefix_rfl⟩
  rw [readPayload, openPayload_payload htold]
  split
  · rfl
  · show (r.decode (put list)).mapError CodecError.fields = .ok list
    rw [hdec]
    rfl

/-- The general form of the round trip, for both kinds of lists at once: the tag rule, the bound on
the length, and what decoding gives. -/
theorem carried_payload (hr : r.Reads (written put fits)) {list : α} (hfits : fits list)
    (hsize : (put list).size < UInt32.size) :
    Carried (put list) list (payload (put list)) (readPayload r (payload (put list))) := by
  have hread := readPayload_payload hr hfits fun _ => hsize
  refine ⟨?_, ?_, size_payload_le _, head?_payload _⟩
  · rw [hread]
    split
    case isTrue h => exact .inr ⟨h.2, rfl⟩
    case isFalse => exact .inl rfl
  · intro hle
    rw [hread, if_neg fun h => Nat.not_lt.mpr hle h.2]

theorem reads_blockSum : Reader.blockSum.Reads (written putBlockSum fun _ => True) := by
  refine (Reader.reads_u32.bind fun weak _ _ => (Reader.reads_take strongWidth).map
    fun b => (⟨weak, .ofBytes b.data.toList⟩ : BlockSum)).congr ?_
  intro s w
  constructor
  · rintro ⟨weak, _, _, ⟨rfl, -⟩, ⟨b, ⟨rfl, hb⟩, rfl⟩, rfl⟩
    have hlen : b.data.toList.length = strongWidth := by
      rw [length_toList, hb]
    refine ⟨?_, trivial⟩
    rw [putBlockSum, StrongHash.toBytes_ofBytes hlen, toByteArray_toList,
      ByteArray.toList_data_append]
  · rintro ⟨rfl, -⟩
    refine ⟨s.weak, _, _, ⟨rfl, trivial⟩,
      ⟨(StrongHash.toBytes s.strong).toByteArray, ⟨rfl, ?_⟩, ?_⟩, ?_⟩
    · exact List.size_toByteArray.trans (StrongHash.length_toBytes s.strong)
    · rw [List.data_toByteArray, StrongHash.ofBytes_toBytes]
    · rw [putBlockSum, ByteArray.toList_data_append]

/-- The number that tells the two kinds of instruction apart. -/
def instructionKind : Instruction → Nat
  | .reference _ => 0
  | .literal _ => 1

/-- What stands behind the number: a block's index, or bytes that fit behind their length. -/
def instructionBody : Spelling Instruction
  | .reference index => written putU32 (fun _ => True) index
  | .literal bytes => written putBytes (·.size < lengthBound) bytes

/-- The bytes of a literal fit behind their length. -/
def LiteralFits : Instruction → Prop
  | .reference _ => True
  | .literal bytes => bytes.size < lengthBound

theorem reads_instruction : Reader.instruction.Reads (written putInstruction LiteralFits) := by
  refine (Reader.reads_kinds (by decide : 2 ≤ Nat.pow 256 4) instructionKind instructionBody
    (fun i => ?_) fun n hn => ?_).congr fun i w => ?_
  · cases i <;> simp [instructionKind]
  · match n, hn with
    | 0, _ =>
      refine (Reader.reads_u32.map Instruction.reference).congr fun i w => ?_
      cases i <;> simp [instructionKind, instructionBody]
    | 1, _ =>
      refine (Reader.reads_bytes.map Instruction.literal).congr fun i w => ?_
      cases i <;> simp [instructionKind, instructionBody]
  · cases i with
    | reference index => exact written_behind (putVariant 0) putU32 (fun _ => True) index w
    | literal bytes => exact written_behind (putVariant 1) putBytes (·.size < lengthBound) bytes w

theorem size_putInstruction_pos (i : Instruction) : 1 ≤ (putInstruction i).size := by
  cases i <;> simp [putInstruction, putVariant, Reader.size_putNumber] <;> omega

/-- A literal in an encoded list is shorter than the list, so its length fits its field if that of
the list does. -/
theorem literalFits_of_size (i : Instruction) (h : (putInstruction i).size < lengthBound) :
    LiteralFits i := by
  cases i with
  | reference index => exact trivial
  | literal bytes =>
    simp only [putInstruction, putBytes, ByteArray.size_append] at h
    simp only [LiteralFits]
    omega

theorem size_lt_lengthBound {raw : ByteArray} (h : raw.size < UInt32.size) :
    raw.size < lengthBound :=
  Nat.lt_trans h (by decide)

/-- All lengths in an encoded delta fit their fields as soon as the whole does. -/
theorem delta_fits {d : Delta} (hd : (putDelta d).size < lengthBound) :
    d.length < lengthBound ∧ ∀ i ∈ d, LiteralFits i :=
  Reader.items_fit _ _ size_putInstruction_pos literalFits_of_size hd

theorem size_putBlockSum (b : BlockSum) : (putBlockSum b).size = 4 + strongWidth := by
  rw [putBlockSum, ByteArray.size_append, putU32, Reader.size_putNumber, List.size_toByteArray,
    StrongHash.length_toBytes]

theorem signature_fits {s : Signature} (hs : (putSignature s).size < lengthBound) :
    s.length < lengthBound ∧ ∀ b ∈ s, True := by
  refine Reader.items_fit _ _ (fun b => ?_) (fun _ _ => trivial) hs
  rw [size_putBlockSum]
  exact Nat.le_add_right_of_le (by decide)

/-- The round trip of deltas, with the only refusal there is. -/
theorem decodeDelta_encodeDelta {d : Delta} (hsize : (putDelta d).size < lengthBound)
    (htold : LengthTold (putDelta d)) : decodeDelta (encodeDelta d) =
      if Refused (putDelta d) then .error (.oversizedPayload (putDelta d).size) else .ok d :=
  readPayload_payload (Reader.reads_items reads_instruction) (delta_fits hsize) htold

/-- The round trip of signatures. Their entries are of fixed width, so only the length of the list
has to fit. -/
theorem decodeSignature_encodeSignature {s : Signature}
    (hsize : (putSignature s).size < lengthBound) (htold : LengthTold (putSignature s)) :
    decodeSignature (encodeSignature s) =
      if Refused (putSignature s) then .error (.oversizedPayload (putSignature s).size)
      else .ok s :=
  readPayload_payload (Reader.reads_items reads_blockSum) (signature_fits hsize) htold

theorem carried_delta (d : Delta) (hd : (putDelta d).size < UInt32.size) :
    Carried (putDelta d) d (encodeDelta d) (decodeDelta (encodeDelta d)) :=
  carried_payload (Reader.reads_items reads_instruction) (delta_fits (size_lt_lengthBound hd)) hd

theorem carried_signature (s : Signature) (hs : (putSignature s).size < UInt32.size) :
    Carried (putSignature s) s (encodeSignature s) (decodeSignature (encodeSignature s)) :=
  carried_payload (Reader.reads_items reads_blockSum) (signature_fits (size_lt_lengthBound hs)) hs

/-- Deltas and signatures of less than four gibibytes survive their payloads. The tag tells whether
the list was deflated, which it is only if it is long and gets shorter by it; and decoding refuses
it just if it was deflated from more than `maxInflated` bytes. -/
theorem carried_encode :
    (∀ d : Delta, (putDelta d).size < UInt32.size →
      Carried (putDelta d) d (encodeDelta d) (decodeDelta (encodeDelta d))) ∧
    (∀ s : Signature, (putSignature s).size < UInt32.size →
      Carried (putSignature s) s (encodeSignature s) (decodeSignature (encodeSignature s))) :=
  ⟨carried_delta, carried_signature⟩

/-- A short delta, which travels as it is, and a signature of sixty equal blocks, of which the
payload holds an LZ4 block. -/
theorem carried_encode_both :
    let delta : Delta := [.reference 7, .literal ⟨#[1, 2, 3]⟩]
    let signature : Signature := List.replicate 60 ⟨0, 0⟩
    (putDelta delta).size < UInt32.size ∧
    Carried (putDelta delta) delta (encodeDelta delta) (decodeDelta (encodeDelta delta)) ∧
    (encodeDelta delta).data.toList.head? = some tagPlain ∧
    (putSignature signature).size < UInt32.size ∧
    Carried (putSignature signature) signature (encodeSignature signature)
      (decodeSignature (encodeSignature signature)) ∧
    (encodeSignature signature).data.toList.head? = some tagBlock := by
  intro delta signature
  have hdelta : (putDelta delta).size < UInt32.size := by decide +kernel
  have hplain : ¬Deflates (putDelta delta) := fun h => absurd h.1 (by decide +kernel)
  -- behind the first byte of the sixty there are zeros only
  have hbytes : (putSignature signature).data.toList = 60 :: List.replicate 1207 0 := by
    decide +kernel
  have hsize : (putSignature signature).size = 1208 := by
    rw [← length_toList, hbytes, List.length_cons, List.length_replicate]
  have hblock : Deflates (putSignature signature) := by
    have hrun := Lz4.run_of_toList (by decide) (by decide) hbytes
    have hshort := hrun.size_compress_le (hsize ▸ by decide) (hsize ▸ by decide)
    rw [Deflates, deflated, ByteArray.size_append, Reader.size_putNumber, hsize]
    rw [hsize] at hshort
    exact ⟨by decide, by omega⟩
  have hsignature : (putSignature signature).size < UInt32.size := hsize ▸ by decide
  have hcarried := carried_encode.1 delta hdelta
  have hcarried' := carried_encode.2 signature hsignature
  refine ⟨hdelta, hcarried, ?_, hsignature, hcarried', ?_⟩
  · rw [hcarried.tag, if_neg hplain]
  · rw [hcarried'.tag, if_pos hblock]

end DeltaMesh.Wire
