import DeltaMesh.Delta.Scan
import DeltaMesh.Proofs.Delta.Lookup

/-!
# Segments tile the new value

`Tiles s value start stop segments` says that the segments cover the bytes `[start, stop)` of the
value one after the other, that none of them is empty, and that every reference names the lowest
block of the signature `s` whose sum is that of the segment's bytes. The invariant of the scan is
that the segments found so far tile the bytes before the first one that is still uncovered.

Main statement: the segments of a value tile it, whatever the signature (`segments_tile`).
-/

namespace DeltaMesh

/-- The lowest block of `s` with the sum of the bytes `[start, stop)` of `value` is `block`. -/
def Hit (s : Signature) (value : ByteArray) (block start stop : Nat) : Prop :=
  s.idxOf? (.ofBlock (value.extract start stop)) = some block

/-- The segments cover the bytes from `start` to `stop`, none is empty, and references hit. -/
inductive Tiles (s : Signature) (value : ByteArray) :
    (start stop : Nat) → List Segment → Prop
  | nil (pos : Nat) : Tiles s value pos pos []
  | literal {start mid stop : Nat} {rest : List Segment} (h : start < mid)
      (tail : Tiles s value mid stop rest) :
      Tiles s value start stop (.literal start mid :: rest)
  | reference {block start mid stop : Nat} {rest : List Segment} (h : start < mid)
      (hit : Hit s value block start mid) (tail : Tiles s value mid stop rest) :
      Tiles s value start stop (.reference block start mid :: rest)

variable {s : Signature} {value : ByteArray}

theorem Tiles.le {start stop : Nat} {l : List Segment} (h : Tiles s value start stop l) :
    start ≤ stop := by
  induction h with
  | nil => exact Nat.le_refl _
  | literal h _ ih => omega
  | reference h _ _ ih => omega

theorem Tiles.append {start mid stop : Nat} {l r : List Segment}
    (hl : Tiles s value start mid l) (hr : Tiles s value mid stop r) :
    Tiles s value start stop (l ++ r) := by
  induction hl with
  | nil => exact hr
  | literal h _ ih => exact .literal h (ih hr)
  | reference h hit _ ih => exact .reference h hit (ih hr)

namespace Scan

theorem tiles_pushLiteral {start mid stop : Nat} {done : Array Segment} (hle : mid ≤ stop)
    (h : Tiles s value start mid done.toList) :
    Tiles s value start stop (pushLiteral done mid stop).toList := by
  rw [pushLiteral]
  split
  case isTrue hlt =>
    rw [Array.toList_push]
    exact h.append (.literal hlt (.nil stop))
  case isFalse hge =>
    obtain rfl : mid = stop := by omega
    exact h

theorem tiles_pushReference {block start mid stop : Nat} {done : Array Segment} (hlt : mid < stop)
    (hit : Hit s value block mid stop) (h : Tiles s value start mid done.toList) :
    Tiles s value start stop (done.push (.reference block mid stop)).toList := by
  rw [Array.toList_push]
  exact h.append (.reference hlt hit (.nil stop))

/-! ### Full windows -/

/-- The rolled checksum is always that of the window looked up, so a match is a hit. -/
theorem hit_of_nextMatch {blockSize pos off block : Nat} {w : Weak}
    (hw : w = .ofRange value pos (pos + blockSize))
    (h : nextMatch (.ofSignature s) value blockSize pos w = some (off, block)) :
    Hit s value block off (off + blockSize) := by
  induction pos, w using nextMatch.induct (.ofSignature s) value blockSize with
  | case1 pos w hfit b hb =>
    rw [nextMatch, if_pos hfit, hb] at h
    obtain ⟨rfl, rfl⟩ : pos = off ∧ b = block := by simpa using h
    rwa [hw, Index.findIn_ofSignature s (Nat.le_add_right ..) hfit] at hb
  | case2 pos w hfit hb hroom _ ih =>
    rw [nextMatch, if_pos hfit, hb] at h
    simp only [hroom, ↓reduceDIte] at h
    exact ih (hw ▸ Weak.roll_ofRange hroom) h
  | case3 pos w hfit hb hroom =>
    rw [nextMatch, if_pos hfit, hb] at h
    simp [hroom] at h
  | case4 pos w hfit =>
    rw [nextMatch, if_neg hfit] at h
    cases h

/-- What the scan for full windows covers is tiled, and it does not overrun the value. -/
theorem tiles_fullBlocks {blockSize : Nat} (hpos : 0 < blockSize) {pos : Nat}
    {done : Array Segment} (hle : pos ≤ value.size) (h : Tiles s value 0 pos done.toList) :
    Tiles s value 0 (fullBlocks (.ofSignature s) value blockSize hpos pos done).2
        (fullBlocks (.ofSignature s) value blockSize hpos pos done).1.toList ∧
      (fullBlocks (.ofSignature s) value blockSize hpos pos done).2 ≤ value.size := by
  -- a match moves on by a whole window, so that less of the value is left
  induction hn : value.size - pos using Nat.strongRecOn generalizing pos done with
  | _ n ih =>
    rw [fullBlocks]
    split
    case h_1 => exact ⟨h, hle⟩
    case h_2 off block hmatch =>
      obtain ⟨hoff, hfit⟩ := nextMatch_bounds hmatch
      have hliteral := tiles_pushLiteral hoff h
      have hreference := tiles_pushReference (Nat.lt_add_of_pos_right hpos)
        (hit_of_nextMatch rfl hmatch) hliteral
      exact ih _ (by omega) hfit hreference rfl

/-! ### The last bytes -/

/-- Every suffix is listed with its own checksum, although each is made from the next shorter one.
-/
theorem suffixSumsInto_eq {start count : Nat} {w : Weak} (done : List (Nat × Weak))
    (hfit : start + count ≤ value.size) (hw : w = .ofRange value (start + count) value.size) :
    suffixSumsInto value start count w done =
      (List.range' start count).map (fun p => (p, .ofRange value p value.size)) ++ done := by
  induction count generalizing w done with
  | zero => rfl
  | succ count ih =>
    have hlt : start + count < value.size := by omega
    have hpush : w.pushFront value[start + count] =
        .ofRange value (start + count) value.size :=
      hw ▸ Weak.pushFront_ofRange hlt (Nat.le_refl _)
    rw [suffixSumsInto, dif_pos hlt, hpush, ih _ (Nat.le_of_lt hlt) rfl, List.range'_concat,
      List.map_append, List.append_assoc, Nat.one_mul]
    rfl

theorem suffixSums_eq {start : Nat} (hle : start ≤ value.size) :
    suffixSums value start = (List.range' start (value.size - start)).map fun p =>
      (p, .ofRange value p value.size) := by
  -- the suffixes are built up from the empty one at the end of the value
  have hempty : Weak.empty = .ofRange value (start + (value.size - start)) value.size := by
    rw [show start + (value.size - start) = value.size by omega]
    exact (Weak.ofRange_self (Nat.le_refl _)).symm
  rw [suffixSums, suffixSumsInto_eq [] (by omega) hempty, List.append_nil]

/-- A suffix that is found is a hit: its block has the checksums of the bytes up to the end of the
value. -/
theorem hit_of_suffixMatch {start p block : Nat} (hle : start ≤ value.size)
    (h : suffixMatch (.ofSignature s) value start = some (p, block)) :
    start ≤ p ∧ p < value.size ∧ Hit s value block p value.size := by
  rw [suffixMatch, suffixSums_eq hle] at h
  obtain ⟨⟨q, w⟩, hmem, hfind⟩ := List.exists_of_findSome?_eq_some h
  obtain ⟨b, hb, heq⟩ := Option.map_eq_some_iff.mp hfind
  obtain ⟨rfl, rfl⟩ := Prod.mk.inj heq
  obtain ⟨r, hr, hpair⟩ := List.mem_map.mp hmem
  obtain ⟨rfl, rfl⟩ := Prod.mk.inj hpair
  obtain ⟨hstart, hlt⟩ := List.mem_range'_1.mp hr
  rw [show start + (value.size - start) = value.size by omega] at hlt
  rw [Index.findIn_ofSignature s (Nat.le_of_lt hlt) (Nat.le_refl _)] at hb
  exact ⟨hstart, hlt, hb⟩

theorem tiles_finish {blockSize pos : Nat} {done : Array Segment} (hle : pos ≤ value.size)
    (h : Tiles s value 0 pos done.toList) :
    Tiles s value 0 value.size (finish (.ofSignature s) value blockSize pos done).toList := by
  rw [finish]
  split
  case h_1 start block hmatch =>
    obtain ⟨hstart, hlt, hit⟩ := hit_of_suffixMatch (Nat.sub_le ..) hmatch
    exact tiles_pushReference hlt hit (tiles_pushLiteral (by omega) h)
  case h_2 => exact tiles_pushLiteral hle h

end Scan

/-- The segments of a value tile it: they follow one another from its beginning to its end, and each
reference is a hit. Everything about deltas is proved from this and not from the scan. -/
theorem segments_tile (s : Signature) (value : ByteArray) (blockSize : Nat) :
    Tiles s value 0 value.size (segments s value blockSize) := by
  rw [segments]
  split
  case isTrue hempty =>
    rw [hempty]
    exact .nil 0
  case isFalse hne =>
    split
    case isTrue h =>
      obtain ⟨htiles, hle⟩ := Scan.tiles_fullBlocks h.1 (Nat.zero_le _) (.nil 0)
      exact Scan.tiles_finish hle htiles
    case isFalse => exact .literal (Nat.pos_of_ne_zero hne) (.nil _)

/-- A delta against nothing carries the whole value. -/
theorem diff_empty {value : ByteArray} (h : value.size ≠ 0) (blockSize windowSize : Nat) :
    diff (.ofValue .empty blockSize) value windowSize = [.literal value] := by
  have hcount : blockCount ByteArray.empty.size blockSize = 0 :=
    Nat.le_zero.mp (blockCount_le _ _)
  have hsignature : Signature.ofValue .empty blockSize = [] := by
    rw [ofValue_eq_map, hcount]
    rfl
  rw [diff, segments, if_neg h, dif_neg fun hn => hn.2 hsignature, List.map_singleton,
    Segment.instruction, ByteArray.extract_zero_size]

end DeltaMesh
