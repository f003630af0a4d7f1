import DeltaMesh.Proofs.Delta.Tiling

/-!
# The plain scan

The scan without an index and without a rolled checksum: the sums of every window are computed anew
and looked for in the signature from its first place on (`Plain.place?`). A window that is found
becomes a reference, behind a literal of the bytes that wait, and the scan goes on behind it;
otherwise the window moves on by one byte (`Plain.scan`). Where no full window is left, the suffixes
that are shorter than a block are tried, the longest first (`Plain.finish`).

Main statement: the scan with the index and the rolled checksum finds the same delta
(`diff_eq_plain`).
-/

namespace DeltaMesh

namespace Plain

/-- The first place of the signature with both checksums of the window. -/
def place? (s : Signature) (window : ByteArray) : Option Nat :=
  s.findIdx? fun b => b.weak = (Weak.ofWindow window).digest ∧ b.strong = strongHash window

/-- A literal of these bytes, if there are any. -/
def literal (bytes : ByteArray) : Delta := if bytes.size = 0 then [] else [.literal bytes]

/-- Tries the suffixes of `longest`, `longest - 1`, …, 1 bytes; the bytes from `start` on wait. -/
def finish (s : Signature) (value : ByteArray) (start : Nat) : (longest : Nat) → Delta
  | 0 => literal (value.extract start value.size)
  | length + 1 =>
    let pos := value.size - (length + 1)
    match place? s (value.extract pos value.size) with
    | some block => literal (value.extract start pos) ++ [.reference block.toUInt32]
    | none => finish s value start length

/-- Goes on with the window at `pos`; the bytes from `start` on wait. -/
def scan (s : Signature) (value : ByteArray) (blockSize : Nat) (h : 0 < blockSize)
    (start pos : Nat) : Delta :=
  if pos + blockSize ≤ value.size then
    match place? s (value.extract pos (pos + blockSize)) with
    | some block =>
      literal (value.extract start pos) ++
        .reference block.toUInt32 :: scan s value blockSize h (pos + blockSize) (pos + blockSize)
    | none => scan s value blockSize h start (pos + 1)
  else finish s value start (min (blockSize - 1) (value.size - start))
termination_by value.size - pos

/-- The delta that the plain scan finds. -/
def diff (s : Signature) (value : ByteArray) (blockSize : Nat) (h : 0 < blockSize) : Delta :=
  scan s value blockSize h 0 0

/-- Looking for both checksums is looking for the block sum. -/
theorem place?_eq (s : Signature) (window : ByteArray) :
    place? s window = s.idxOf? (.ofBlock window) := by
  refine congrArg (List.findIdx? · s) (funext fun b => ?_)
  cases b
  rw [Bool.eq_iff_iff, decide_eq_true_iff, beq_iff_eq, BlockSum.ofBlock, BlockSum.mk.injEq]

variable {s : Signature} {value : ByteArray} {blockSize : Nat} {h : 0 < blockSize}
  {start pos : Nat}

/-- Looking a window up in the index is the plain search through the signature. The weak checksum
only narrows the search; it never changes what is found. -/
theorem findIn_ofSignature {stop : Nat} (hle : pos ≤ stop) (hstop : stop ≤ value.size) :
    (Index.ofSignature s).findIn value pos stop (Weak.ofRange value pos stop).digest =
      place? s (value.extract pos stop) :=
  (Index.findIn_ofSignature s hle hstop).trans (place?_eq ..).symm

/-- A window that a block matches ends the literal before it, and the scan goes on behind the
window. -/
theorem scan_of_some {block : Nat} (hfit : pos + blockSize ≤ value.size)
    (hplace : place? s (value.extract pos (pos + blockSize)) = some block) :
    scan s value blockSize h start pos = literal (value.extract start pos) ++
      .reference block.toUInt32 ::
        scan s value blockSize h (pos + blockSize) (pos + blockSize) := by
  rw [scan, if_pos hfit, hplace]

/-- If no block matches a window, then the literal grows by one byte. -/
theorem scan_of_none (hfit : pos + blockSize ≤ value.size)
    (hplace : place? s (value.extract pos (pos + blockSize)) = none) :
    scan s value blockSize h start pos = scan s value blockSize h start (pos + 1) := by
  rw [scan, if_pos hfit, hplace]

/-- When no full window is left the suffixes are tried. -/
theorem scan_of_short (hshort : ¬pos + blockSize ≤ value.size) :
    scan s value blockSize h start pos =
      finish s value start (min (blockSize - 1) (value.size - start)) := by
  rw [scan, if_neg hshort]

/-- A suffix that a block matches is taken. -/
theorem finish_of_some {length block : Nat}
    (hplace : place? s (value.extract (value.size - (length + 1)) value.size) = some block) :
    finish s value start (length + 1) =
      literal (value.extract start (value.size - (length + 1))) ++ [.reference block.toUInt32] := by
  rw [finish, hplace]

/-- If no block matches a suffix, then the next shorter one is tried. -/
theorem finish_of_none {length : Nat}
    (hplace : place? s (value.extract (value.size - (length + 1)) value.size) = none) :
    finish s value start (length + 1) = finish s value start length := by
  rw [finish, hplace]

end Plain

namespace Scan

open Plain (place? literal)

variable {s : Signature} {value : ByteArray} {blockSize : Nat}

/-! ### Literals -/

/-- The instructions of segments to which a literal is added; an empty one is not. -/
theorem instructions_pushLiteral (done : Array Segment) {start stop : Nat}
    (hstop : stop ≤ value.size) :
    (pushLiteral done start stop).toList.map (Segment.instruction value) =
      done.toList.map (Segment.instruction value) ++ literal (value.extract start stop) := by
  have hsize : (value.extract start stop).size = stop - start := by
    rw [ByteArray.size_extract, Nat.min_eq_left hstop]
  rw [pushLiteral, literal, hsize]
  split
  case isTrue hlt =>
    rw [if_neg (Nat.sub_ne_zero_of_lt hlt), Array.toList_push, List.map_append]
    rfl
  case isFalse hge =>
    rw [if_pos (Nat.sub_eq_zero_of_le (Nat.le_of_not_lt hge)), List.append_nil]

theorem instructions_push (done : Array Segment) (segment : Segment) :
    (done.push segment).toList.map (Segment.instruction value) =
      done.toList.map (Segment.instruction value) ++ [segment.instruction value] := by
  rw [Array.toList_push, List.map_append, List.map_singleton]

/-! ### Full windows -/

/-- The next match with a rolled checksum is where the plain scan finds the next window. -/
theorem scan_of_nextMatch {h : 0 < blockSize} {start pos : Nat} {w : Weak}
    (hw : w = .ofRange value pos (pos + blockSize)) :
    Plain.scan s value blockSize h start pos =
      match nextMatch (.ofSignature s) value blockSize pos w with
      | some (off, block) =>
        literal (value.extract start off) ++ .reference block.toUInt32 ::
          Plain.scan s value blockSize h (off + blockSize) (off + blockSize)
      | none => Plain.finish s value start (min (blockSize - 1) (value.size - start)) := by
  induction pos, w using nextMatch.induct (.ofSignature s) value blockSize with
  | case1 pos w hfit block hblock =>
    rw [nextMatch, if_pos hfit, hblock]
    rw [hw, Plain.findIn_ofSignature (Nat.le_add_right ..) hfit] at hblock
    exact Plain.scan_of_some hfit hblock
  | case2 pos w hfit hnone hroom _ ih =>
    rw [nextMatch, if_pos hfit, hnone]
    rw [hw, Plain.findIn_ofSignature (Nat.le_add_right ..) hfit] at hnone
    simp only [hroom, ↓reduceDIte]
    rw [Plain.scan_of_none hfit hnone]
    exact ih (hw ▸ Weak.roll_ofRange hroom)
  | case3 pos w hfit hnone hroom =>
    rw [nextMatch, if_pos hfit, hnone]
    rw [hw, Plain.findIn_ofSignature (Nat.le_add_right ..) hfit] at hnone
    simp only [hroom, ↓reduceDIte]
    -- the window was the last one: the next one would overrun the value
    rw [Plain.scan_of_none hfit hnone, Plain.scan_of_short (by omega)]
  | case4 pos w hfit =>
    rw [nextMatch, if_neg hfit]
    exact Plain.scan_of_short hfit

/-! ### The last bytes -/

/-- The suffixes that are tried are those that the plain scan tries. -/
theorem finish_of_suffixes {start longest : Nat} (hlongest : longest ≤ value.size) :
    Plain.finish s value start longest =
      match (List.range' (value.size - longest) longest).findSome? fun p =>
        (place? s (value.extract p value.size)).map fun block => (p, block) with
      | some (p, block) => literal (value.extract start p) ++ [.reference block.toUInt32]
      | none => literal (value.extract start value.size) := by
  induction longest with
  | zero => rfl
  | succ length ih =>
    have hnext : value.size - (length + 1) + 1 = value.size - length := by omega
    rw [Plain.finish, List.range'_succ, List.findSome?_cons, hnext]
    cases place? s (value.extract (value.size - (length + 1)) value.size) with
    | some block => rfl
    | none => exact ih (by omega)

/-- Going backwards through the suffix sums finds the longest suffix that matches, as the plain
search from the front does. -/
theorem suffixMatch_eq (s : Signature) {start : Nat} (hle : start ≤ value.size) :
    suffixMatch (.ofSignature s) value start =
      (List.range' start (value.size - start)).findSome? fun p =>
        (place? s (value.extract p value.size)).map fun block => (p, block) := by
  have hmap (f : Nat → Option (Nat × Nat)) (l : List Nat) :
      l.findSome? f = (l.map f).findSome? id := by rw [List.findSome?_map, Function.id_comp]
  rw [suffixMatch, suffixSums_eq hle, List.findSome?_map, hmap, hmap _ (List.range' ..)]
  refine congrArg _ (List.map_congr_left fun p hp => ?_)
  have hlt : p < value.size := by
    obtain ⟨-, hlt⟩ := List.mem_range'_1.mp hp
    omega
  exact congrArg (Option.map fun block => (p, block))
    (Plain.findIn_ofSignature (Nat.le_of_lt hlt) (Nat.le_refl _))

/-- The end of the rolling scan and that of the plain one give the same instructions. -/
theorem instructions_finish (done : Array Segment) {pos : Nat} :
    (finish (.ofSignature s) value blockSize pos done).toList.map (Segment.instruction value) =
      done.toList.map (Segment.instruction value) ++
        Plain.finish s value pos (min (blockSize - 1) (value.size - pos)) := by
  have hlongest : min (blockSize - 1) (value.size - pos) ≤ value.size := by omega
  have hmatch := suffixMatch_eq s (Nat.sub_le value.size (min (blockSize - 1) (value.size - pos)))
  rw [Nat.sub_sub_self hlongest] at hmatch
  rw [finish, finish_of_suffixes hlongest, hmatch]
  cases hfound : (List.range' (value.size - min (blockSize - 1) (value.size - pos))
      (min (blockSize - 1) (value.size - pos))).findSome? fun p =>
        (place? s (value.extract p value.size)).map fun block => (p, block) with
  | none => exact instructions_pushLiteral done (Nat.le_refl _)
  | some found =>
    obtain ⟨p, block⟩ := found
    obtain ⟨q, hq, heq⟩ := List.exists_of_findSome?_eq_some hfound
    obtain ⟨_, -, hpair⟩ := Option.map_eq_some_iff.mp heq
    obtain ⟨rfl, rfl⟩ := Prod.mk.inj hpair
    obtain ⟨-, hlt⟩ := List.mem_range'_1.mp hq
    rw [instructions_push, instructions_pushLiteral done (by omega), List.append_assoc]
    rfl

/-! ### The whole value -/

/-- What the scan finds from `pos` on is what the plain scan finds from there. The induction follows
the windows: a window that matches is skipped as a whole, and otherwise both scans move on by a
byte, the one with a rolled checksum and the other one with a fresh one. -/
theorem instructions_fullBlocks (h : 0 < blockSize) {pos : Nat} (done : Array Segment) :
    ((finish (.ofSignature s) value blockSize
        (fullBlocks (.ofSignature s) value blockSize h pos done).2
        (fullBlocks (.ofSignature s) value blockSize h pos done).1).toList.map
          (Segment.instruction value)) =
      done.toList.map (Segment.instruction value) ++ Plain.scan s value blockSize h pos pos := by
  -- a match moves on by a whole window, so that less of the value is left
  induction hn : value.size - pos using Nat.strongRecOn generalizing pos done with
  | _ n ih =>
    have hscan := @scan_of_nextMatch s value blockSize h pos pos _ rfl
    rw [fullBlocks]
    split
    case h_1 hnone =>
      rw [hnone] at hscan
      rw [hscan]
      exact instructions_finish done
    case h_2 off block hmatch =>
      obtain ⟨hoff, hfit⟩ := nextMatch_bounds hmatch
      rw [hmatch] at hscan
      rw [hscan, ih _ (by omega) _ rfl, instructions_push,
        instructions_pushLiteral done (by omega), List.append_assoc, List.append_assoc]
      rfl

end Scan

namespace Plain

theorem place?_nil (window : ByteArray) : place? [] window = none := rfl

theorem finish_nil (value : ByteArray) (start longest : Nat) :
    finish [] value start longest = literal (value.extract start value.size) := by
  induction longest with
  | zero => rfl
  | succ length ih => exact ih

/-- Without blocks to find there is one literal. -/
theorem scan_nil (value : ByteArray) {blockSize : Nat} (h : 0 < blockSize) (start pos : Nat) :
    scan [] value blockSize h start pos = literal (value.extract start value.size) := by
  induction hn : value.size - pos using Nat.strongRecOn generalizing pos with
  | _ n ih =>
    by_cases hfit : pos + blockSize ≤ value.size
    · rw [scan_of_none hfit (place?_nil _)]
      exact ih _ (by omega) (pos + 1) rfl
    · rw [scan_of_short hfit, finish_nil]

end Plain

/-- With blocks to look for and bytes to cover, the delta is what the plain scan finds. -/
theorem diff_eq_scan {s : Signature} {value : ByteArray} {blockSize : Nat} (h : 0 < blockSize)
    (hs : s ≠ []) (hne : value.size ≠ 0) :
    diff s value blockSize = Plain.scan s value blockSize h 0 0 := by
  rw [diff, segments, if_neg hne, dif_pos ⟨h, hs⟩]
  exact Scan.instructions_fullBlocks h #[]

/-- The scan with an index and a rolled checksum finds the delta that the plain scan finds, which
looks at each window anew and goes through the whole signature for it. Neither the index nor the
rolled checksum is ever seen in the result, nor that the checksums of all suffixes are found in one
pass from the end. -/
theorem diff_eq_plain (s : Signature) (value : ByteArray) {blockSize : Nat} (h : 0 < blockSize) :
    diff s value blockSize = Plain.diff s value blockSize h := by
  have hwhole : value.extract 0 value.size = value := ByteArray.extract_zero_size
  by_cases hempty : value.size = 0
  · have hliteral : Plain.literal (value.extract 0 value.size) = [] := by
      rw [hwhole, Plain.literal, if_pos hempty]
    rw [diff, segments, if_pos hempty, Plain.diff, Plain.scan_of_short (by omega), hempty,
      Nat.zero_sub, Nat.min_zero, Plain.finish, hliteral]
    rfl
  · by_cases hs : s = []
    · subst hs
      rw [diff, segments, if_neg hempty, dif_neg fun hsome => hsome.2 rfl, Plain.diff,
        Plain.scan_nil, hwhole, Plain.literal, if_neg hempty, List.map_singleton,
        Segment.instruction, hwhole]
    · exact diff_eq_scan h hs hempty

/-- The first two blocks have the same sums, and the last bytes are a block that is shorter. -/
theorem diff_eq_plain_repeated :
    0 < 2 ∧ diff (.ofValue ⟨#[1, 2, 1, 2, 5]⟩ 2) ⟨#[1, 2, 7, 5]⟩ 2 =
      Plain.diff (.ofValue ⟨#[1, 2, 1, 2, 5]⟩ 2) ⟨#[1, 2, 7, 5]⟩ 2 (by decide) :=
  ⟨by decide, diff_eq_plain _ _ (by decide)⟩

end DeltaMesh
