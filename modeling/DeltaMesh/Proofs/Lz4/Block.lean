import DeltaMesh.Lz4.Block
import DeltaMesh.Proofs.Bytes.Cursor
import DeltaMesh.Proofs.Lz4.Plan

/-!
# A block expands to what was compressed

Written out, a length is a nibble and the row `lengthBytes`, a literal the row `literalBytes`, and
a sequence the row `Sequence.bytes`; the block of a plan is the rows of its sequences and that of
the last literal. Reading is described row by row: each reader gives back what its row was made
of. The invariant of `expandFrom` is that the output so far is the beginning of the input.

Main statements: the block of a sound plan expands to its input (`expand_write`), and so does the
block that `compress` writes (`expand_compress`).
-/

namespace DeltaMesh.Lz4

/-! ### Blocks as rows of bytes -/

/-- The bytes that carry a length on, once the nibble is full. -/
def tailBytes (n : Nat) : List UInt8 :=
  if n < 255 then [n.toUInt8] else 255 :: tailBytes (n - 255)
termination_by n

/-- The further bytes of a length. -/
def lengthBytes (n : Nat) : List UInt8 := if n < 15 then [] else tailBytes (n - 15)

/-- A literal behind a token that also announces `matchLength`. -/
def literalBytes (x : ByteArray) (start stop matchLength : Nat) : List UInt8 :=
  token (stop - start) matchLength ::
    (lengthBytes (stop - start) ++ (x.extract start stop).data.toList)

/-- The distance of a match, and the further bytes of its length. -/
def matchBytes (offset extra : Nat) : List UInt8 :=
  offset.toUInt8 :: (offset / 256).toUInt8 :: lengthBytes extra

/-- How much longer than the shortest match a match is. -/
def Sequence.extra (s : Sequence) : Nat := s.matchStop - s.matchStart - minMatch

/-- A literal and a match. -/
def Sequence.bytes (x : ByteArray) (s : Sequence) : List UInt8 :=
  literalBytes x s.literalStart s.matchStart s.extra ++ matchBytes s.offset s.extra

/-- A length is written by appending bytes of 255 and a last, smaller one. -/
theorem toList_lengthTail (n : Nat) (out : ByteArray) :
    (lengthTail n out).data.toList = out.data.toList ++ tailBytes n := by
  induction n, out using lengthTail.induct with
  | case1 n out h => rw [lengthTail, if_pos h, tailBytes, if_pos h, toList_data_push]
  | case2 n out h ih =>
    rw [lengthTail, if_neg h, ih, toList_data_push, tailBytes.eq_def n, if_neg h,
      List.append_assoc]
    rfl

theorem toList_pushLength (n : Nat) (out : ByteArray) :
    (pushLength n out).data.toList = out.data.toList ++ lengthBytes n := by
  rw [pushLength, lengthBytes]
  split
  case isTrue => rw [List.append_nil]
  case isFalse => exact toList_lengthTail ..

/-- Writing a literal appends its token, the rest of its length and its bytes. -/
theorem toList_pushLiteral (x : ByteArray) (start stop matchLength : Nat) (out : ByteArray) :
    (pushLiteral x start stop matchLength out).data.toList =
      out.data.toList ++ literalBytes x start stop matchLength := by
  rw [pushLiteral, ByteArray.toList_data_append, toList_pushLength, toList_data_push, literalBytes]
  simp only [List.append_assoc, List.cons_append, List.nil_append]

/-- Writing a sequence appends the bytes of that sequence, whatever was written before. -/
theorem toList_pushSequence (x out : ByteArray) (s : Sequence) :
    (pushSequence x out s).data.toList = out.data.toList ++ s.bytes x := by
  simp only [pushSequence, toList_pushLength, toList_data_push, toList_pushLiteral, Sequence.bytes,
    matchBytes, Sequence.extra, List.append_assoc, List.cons_append, List.nil_append]

/-- A written plan consists of the rows of bytes of its sequences, one after the other, and of the
last literal. -/
theorem toList_write (p : Plan) (x : ByteArray) :
    (p.write x).data.toList =
      p.sequences.toList.flatMap (Sequence.bytes x) ++ literalBytes x p.lastLiteral x.size 0 := by
  rw [Plan.write, toList_pushLiteral, ← Array.foldl_toList, toList_foldl (toList_pushSequence x)]
  rfl

/-! ### Reading rows -/

/-- The bytes of `block` from `pos` on. -/
def rest (block : ByteArray) (pos : Nat) : List UInt8 := (Cursor.mk block pos).rest

section Reading

variable {block : ByteArray} {pos : Nat} {l r : List UInt8}

/-- Moving on behind what has been read. -/
theorem rest_add (h : rest block pos = l ++ r) : rest block (pos + l.length) = r :=
  Cursor.rest_ahead h

theorem rest_succ {b : UInt8} (h : rest block pos = b :: r) : rest block (pos + 1) = r :=
  rest_add (l := [b]) h

/-- What is read and what lies ahead make up the block. -/
theorem size_of_rest (hpos : pos ≤ block.size) (h : rest block pos = l) :
    block.size = pos + l.length := by
  have hlen : block.size - pos = l.length := h ▸ (Cursor.length_rest ⟨block, pos⟩).symm
  omega

theorem lt_of_rest_cons {b : UInt8} (h : rest block pos = b :: r) : pos < block.size := by
  have hlen : block.size - pos = (b :: r).length := h ▸ (Cursor.length_rest ⟨block, pos⟩).symm
  rw [List.length_cons] at hlen
  omega

theorem getElem_of_rest {b : UInt8} (h : rest block pos = b :: r) (hlt : pos < block.size) :
    block[pos] = b := by
  have hget : (rest block pos)[0]? = some b := by rw [h]; rfl
  rw [rest, Cursor.rest, List.getElem?_drop, Nat.add_zero, Array.getElem?_toList] at hget
  exact (Array.getElem?_eq_some_iff.mp hget).2

/-- The next byte is the head of what lies ahead. -/
theorem byteAt_of_rest {b : UInt8} (h : rest block pos = b :: r) : byteAt block pos = b := by
  rw [byteAt, dif_pos (lt_of_rest_cons h), getElem_of_rest h]

/-- A written length is read back by the same loop, from the other side: bytes of 255 go on, and any
other byte is the last. -/
theorem readTail_of_rest {n total : Nat} (h : rest block pos = tailBytes n ++ r) :
    readTail block pos total = .ok (total + n, pos + (tailBytes n).length) := by
  -- by the length that is still to be carried on: every byte but the last is full
  induction n using Nat.strongRecOn generalizing pos total with
  | _ n ih =>
    rw [tailBytes] at h ⊢
    split at h
    case isTrue hlt =>
      rw [List.singleton_append] at h
      have hsmall : n < UInt8.size := Nat.lt_trans hlt (by decide)
      have hbyte : n.toUInt8.toNat = n := UInt8.toNat_ofNat_of_lt' hsmall
      have hne : n.toUInt8 ≠ 255 := fun heq => by
        rw [heq] at hbyte
        have h255 : (255 : UInt8).toNat = 255 := rfl
        omega
      rw [readTail, dif_pos (lt_of_rest_cons h), getElem_of_rest h, if_neg hne, hbyte, if_pos hlt]
      rfl
    case isFalse hge =>
      rw [List.cons_append] at h
      rw [readTail, dif_pos (lt_of_rest_cons h), getElem_of_rest h, if_pos rfl,
        ih (n - 255) (by omega) (rest_succ h), if_neg hge, List.length_cons,
        show total + 255 + (n - 255) = total + n by omega, Nat.add_assoc, Nat.add_comm 1]

/-- A length of fifteen or more continues in the tail; both cases are read back. -/
theorem readLength_of_rest {n : Nat} (h : rest block pos = lengthBytes n ++ r) :
    readLength block (nibble n) pos = .ok (n, pos + (lengthBytes n).length) := by
  rw [lengthBytes] at h ⊢
  rw [readLength]
  split at h
  case isTrue hlt =>
    have hn : nibble n = n := Nat.min_eq_left (by omega)
    rw [hn, if_neg (by omega), if_pos hlt]
    rfl
  case isFalse hge =>
    have hn : nibble n = 15 := Nat.min_eq_right (by omega)
    rw [if_pos hn, readTail_of_rest h, if_neg hge, show 15 + (n - 15) = n by omega]

end Reading

/-- The two halves of a token do not disturb each other. -/
theorem toNat_token (literalLength matchLength : Nat) :
    (token literalLength matchLength).toNat = nibble literalLength * 16 + nibble matchLength := by
  refine UInt8.toNat_ofNat_of_lt' ?_
  simp only [nibble, UInt8.size]
  omega

/-- A literal written behind the beginning of the input makes the beginning longer. What follows
is the end of the block or a match. -/
theorem readSequence_of_rest {x block : ByteArray} {pos start stop extra : Nat} {r : List UInt8}
    (h : rest block pos = literalBytes x start stop extra ++ r) (hle : start ≤ stop)
    (hstop : stop ≤ x.size) :
    readSequence block x.size pos (x.extract 0 start) =
      if r = [] then .ok (.finished (x.extract 0 stop))
      else readMatch block x.size (nibble extra) (pos + (literalBytes x start stop extra).length)
        (x.extract 0 stop) := by
  rw [literalBytes, List.cons_append, List.append_assoc] at h
  have hpos := lt_of_rest_cons h
  have htoken : (byteAt block pos).toNat = nibble (stop - start) * 16 + nibble extra := by
    rw [byteAt_of_rest h, toNat_token]
  have hnibble : nibble extra < 16 := by
    simp only [nibble]
    omega
  have hlength := readLength_of_rest (rest_succ h)
  have hliteral := rest_add (rest_succ h)
  -- the literal's bytes begin at `p`
  generalize hp : pos + 1 + (lengthBytes (stop - start)).length = p at hlength hliteral
  have hcount : (x.extract start stop).data.toList.length = stop - start := by
    rw [length_toList, ByteArray.size_extract]
    omega
  have hend : block.size = p + (stop - start + r.length) := by
    have hblock := size_of_rest hpos (rest_succ h)
    rw [List.length_append] at hblock
    rw [size_of_rest (by omega) hliteral, List.length_append, hcount]
  have hbytes : block.extract p (p + (stop - start)) = x.extract start stop := by
    have hextract := Cursor.extract_of_rest (c := ⟨block, p⟩) hliteral
    rwa [hcount, toByteArray_toList] at hextract
  have hsize : (x.extract 0 start).size = start := size_extract_zero (Nat.le_trans hle hstop)
  have hgrow := extract_zero_append x hle
  have hnext : pos + (literalBytes x start stop extra).length = p + (stop - start) := by
    rw [literalBytes, List.length_cons, List.length_append, hcount]
    omega
  simp only [readSequence]
  rw [if_neg (by omega), htoken, show (nibble (stop - start) * 16 + nibble extra) / 16 =
    nibble (stop - start) by omega, hlength]
  simp only [bind, Except.bind]
  rw [if_neg (by omega), if_neg (by omega), hbytes, hgrow, hnext, show
    (nibble (stop - start) * 16 + nibble extra) % 16 = nibble extra by omega]
  -- the block ends with this literal exactly if nothing follows it
  by_cases hr : r = []
  · rw [if_pos hr, if_pos (by rw [hend, hr, List.length_nil, Nat.add_zero])]
    rfl
  · have hlt := List.length_pos_iff.mpr hr
    rw [if_neg hr, if_neg (by omega)]

/-- Repeating bytes of the input behind its beginning makes the beginning longer. The copy goes byte
by byte, so that a match may be longer than its distance. -/
theorem copyBack_extract {x : ByteArray} {offset start n : Nat} (hoffset : 0 < offset)
    (hinside : offset ≤ start) (hfit : start + n ≤ x.size)
    (hrep : Repeats x start (start + n) offset) :
    copyBack offset n (x.extract 0 start) = x.extract 0 (start + n) := by
  induction n generalizing start with
  | zero => rfl
  | succ n ih =>
    have hsize : (x.extract 0 start).size = start := size_extract_zero (by omega)
    -- also where the match reaches into itself, the byte to copy is one of the input
    have hbyte : byteAt (x.extract 0 start) (start - offset) = byteAt x start := by
      rw [hrep start (Nat.le_refl _) (by omega), byteAt, byteAt, dif_pos (by omega),
        dif_pos (by omega), ByteArray.getElem_extract]
      simp only [Nat.zero_add]
    have hpush : (x.extract 0 start).push (byteAt x start) = x.extract 0 (start + 1) := by
      rw [← toList_inj, toList_data_push, toList_data_extract, toList_data_extract, byteAt,
        dif_pos (by omega), Nat.sub_zero, Nat.sub_zero, List.drop_zero, List.take_add_one]
      simp [show start < x.size by omega, ByteArray.getElem_eq_getElem_data]
    rw [copyBack, hsize, hbyte, hpush]
    rw [ih (by omega) (by omega) fun i hge hlt => hrep i (by omega) (by omega)]
    congr 1
    omega

/-- Reading a match copies from what has been expanded so far. For a sound sequence these are the
bytes of the input at the place of the match, also where the match overlaps its own beginning. -/
theorem readMatch_of_rest {x block : ByteArray} {pos : Nat} {s : Sequence} {start : Nat}
    {r : List UInt8} (h : rest block pos = matchBytes s.offset s.extra ++ r)
    (hs : s.Sound x start) :
    readMatch block x.size (nibble s.extra) pos (x.extract 0 s.matchStart) =
      .ok (.more (pos + (matchBytes s.offset s.extra).length) (x.extract 0 s.matchStop)) := by
  rw [matchBytes, List.cons_append, List.cons_append] at h
  have hmatch := hs.match_le
  have hstop := hs.stop_le
  have hle := hs.offset_le
  have hpos := hs.offset_pos
  have hinside := hs.offset_inside
  simp only [maxOffset] at hle
  have hsecond := lt_of_rest_cons (rest_succ h)
  have hoffset : (byteAt block pos).toNat + 256 * (byteAt block (pos + 1)).toNat = s.offset := by
    rw [byteAt_of_rest h, byteAt_of_rest (rest_succ h)]
    simp only [Nat.toUInt8, UInt8.toNat_ofNat']
    omega
  have hlength := readLength_of_rest (rest_succ (rest_succ h))
  have hextra : minMatch + s.extra = s.matchStop - s.matchStart := by
    simp only [Sequence.extra]
    omega
  have hsize : (x.extract 0 s.matchStart).size = s.matchStart := size_extract_zero (by omega)
  have hstretch : s.matchStart + (s.matchStop - s.matchStart) = s.matchStop := by omega
  have hcopy := copyBack_extract (x := x) hpos hinside (n := s.matchStop - s.matchStart) (by omega)
    (hstretch.symm ▸ hs.repeats)
  simp only [readMatch]
  rw [if_neg (by omega), hoffset, if_neg (by omega), hlength]
  simp only [bind, Except.bind]
  have hpos : pos + 1 + 1 + (lengthBytes s.extra).length =
      pos + ((lengthBytes s.extra).length + 1 + 1) := by omega
  rw [hextra, hsize, if_neg (by omega), if_neg (by omega), hcopy, hstretch, matchBytes,
    List.length_cons, List.length_cons, hpos]
  rfl

/-- Reading the rows of a chain and of the last literal behind the beginning of the input that
the chain starts from gives the whole input. -/
theorem expandFrom_of_chain {x block : ByteArray} {start stop : Nat} {l : List Sequence}
    (hchain : Chain x start l stop) (hstop : stop ≤ x.size) {fuel pos : Nat}
    (hfuel : l.length < fuel)
    (h : rest block pos = l.flatMap (Sequence.bytes x) ++ literalBytes x stop x.size 0) :
    expandFrom block x.size fuel pos (x.extract 0 start) = .ok x := by
  -- one sequence of the chain is one round of the loop
  induction hchain generalizing fuel pos with
  | nil start =>
    obtain ⟨fuel, rfl⟩ := Nat.exists_eq_add_of_lt hfuel
    rw [List.flatMap_nil, List.nil_append, ← List.append_nil (literalBytes ..)] at h
    have hread := readSequence_of_rest h hstop (Nat.le_refl _)
    rw [if_pos rfl, ByteArray.extract_zero_size] at hread
    rw [expandFrom, hread]
  | @cons start stop s rest hs tail ih =>
    obtain ⟨fuel, rfl⟩ := Nat.exists_eq_add_of_lt hfuel
    rw [List.flatMap_cons, Sequence.bytes, List.append_assoc, List.append_assoc] at h
    obtain rfl := hs.literalStart_eq
    have hle : s.matchStart ≤ s.matchStop := Nat.le_trans (Nat.le_add_right ..) hs.match_le
    have hliteral := readSequence_of_rest h hs.start_le (Nat.le_trans hle hs.stop_le)
    rw [if_neg (by simp [matchBytes]), readMatch_of_rest (rest_add h) hs] at hliteral
    rw [expandFrom, hliteral]
    exact ih hstop (by rw [List.length_cons]; omega) (rest_add (rest_add h))

theorem length_bytes_pos (x : ByteArray) (s : Sequence) : 1 ≤ (s.bytes x).length := by
  rw [Sequence.bytes, literalBytes, List.cons_append, List.length_cons]
  omega

/-- The block of a sound plan expands to its input, whatever search the plan was found by. -/
theorem expand_write {x : ByteArray} {p : Plan} (h : p.Sound x) :
    expand (p.write x) x.size = .ok x := by
  have hrest : rest (p.write x) 0 =
      p.sequences.toList.flatMap (Sequence.bytes x) ++ literalBytes x p.lastLiteral x.size 0 :=
    toList_write p x
  have hfuel : p.sequences.toList.length < (p.write x).size + 1 := by
    have hlen := congrArg List.length (toList_write p x)
    rw [List.length_append] at hlen
    have hle := length_le_flatMap (length_bytes_pos x) p.sequences.toList
    rw [length_toList] at hlen
    omega
  have hread := expandFrom_of_chain h.chain h.last_le hfuel hrest
  rwa [ByteArray.extract_same] at hread

/-- A compressed block expands to what was compressed. -/
theorem expand_compress (x : ByteArray) : expand (compress x) x.size = .ok x :=
  expand_write (plan_sound x)

end DeltaMesh.Lz4
