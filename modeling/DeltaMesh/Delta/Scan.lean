import DeltaMesh.Delta.Instruction
import DeltaMesh.Delta.Signature

/-!
# Finding the delta

`segments` cuts a new value into stretches: those whose checksums equal a block of the old value
become references, and what lies between them becomes literals. A window of one block's length
moves over the value byte by byte and its weak checksum is rolled along; a window that a block
matches is taken at once and the search goes on behind it. When no full window is left, the
remaining suffixes that are shorter than a block are tried, longest first, because the old
value's last block may be short. `diff` reads the instructions off the segments.

The program's `find_instructions` and `flush_literal`.
-/

namespace DeltaMesh

/-- A stretch `[start, stop)` of the new value and where its bytes come from. -/
inductive Segment
  | reference (block start stop : Nat)
  | literal (start stop : Nat)
  deriving DecidableEq, Repr

/-- The instruction that produces a segment of `value`. -/
def Segment.instruction (value : ByteArray) : Segment → Instruction
  | .reference block _ _ => .reference block.toUInt32
  | .literal start stop => .literal (value.extract start stop)

namespace Scan

/-- Appends the literal `[start, stop)` unless it is empty. -/
def pushLiteral (done : Array Segment) (start stop : Nat) : Array Segment :=
  if start < stop then done.push (.literal start stop) else done

/-- The first offset from `pos` on at which a full window matches a block, with that block; `w`
is the checksum of the window at `pos`. -/
def nextMatch (ix : Index) (value : ByteArray) (blockSize pos : Nat) (w : Weak) :
    Option (Nat × Nat) :=
  if pos + blockSize ≤ value.size then
    match ix.findIn value pos (pos + blockSize) w.digest with
    | some block => some (pos, block)
    | none =>
      if h : pos + blockSize < value.size then
        have : pos < value.size := Nat.lt_of_le_of_lt (Nat.le_add_right pos blockSize) h
        nextMatch ix value blockSize (pos + 1) (w.roll value[pos] value[pos + blockSize])
      else none
  else none
termination_by value.size - pos

theorem nextMatch_bounds {ix : Index} {value : ByteArray} {blockSize pos : Nat} {w : Weak}
    {off block : Nat} (h : nextMatch ix value blockSize pos w = some (off, block)) :
    pos ≤ off ∧ off + blockSize ≤ value.size := by
  induction pos, w using nextMatch.induct ix value blockSize with
  | case1 pos w hfit b hb =>
    rw [nextMatch, if_pos hfit, hb] at h
    simp only [Option.some.injEq, Prod.mk.injEq] at h
    omega
  | case2 pos w hfit hb hroom _ ih =>
    rw [nextMatch, if_pos hfit, hb] at h
    simp only [hroom, ↓reduceDIte] at h
    have := ih h
    omega
  | case3 pos w hfit hb hroom =>
    rw [nextMatch, if_pos hfit, hb] at h
    simp [hroom] at h
  | case4 pos w hfit => rw [nextMatch, if_neg hfit] at h; cases h

/-- The segments up to the last full window that matches a block, and where that window ends;
`pos` is the first byte that no segment covers yet. -/
def fullBlocks (ix : Index) (value : ByteArray) (blockSize : Nat) (hpos : 0 < blockSize)
    (pos : Nat) (done : Array Segment) : Array Segment × Nat :=
  match h : nextMatch ix value blockSize pos (.ofRange value pos (pos + blockSize)) with
  | none => (done, pos)
  | some (off, block) =>
    have := nextMatch_bounds h
    fullBlocks ix value blockSize hpos (off + blockSize)
      ((pushLiteral done pos off).push (.reference block off (off + blockSize)))
termination_by value.size - pos

/-- Puts the checksums of the suffixes that begin at `start`, …, `start + count - 1` in front of
`done`, longest first; `w` is the checksum of the suffix behind them. -/
def suffixSumsInto (value : ByteArray) (start : Nat) :
    (count : Nat) → (w : Weak) → List (Nat × Weak) → List (Nat × Weak)
  | 0, _, done => done
  | count + 1, w, done =>
    let pos := start + count
    let w := w.pushFront (if h : pos < value.size then value[pos] else 0)
    suffixSumsInto value start count w ((pos, w) :: done)

/-- The suffixes that begin at `start` or later, longest first, each with its checksum. -/
def suffixSums (value : ByteArray) (start : Nat) : List (Nat × Weak) :=
  suffixSumsInto value start (value.size - start) .empty []

/-- The longest suffix that begins at `start` or later and matches a block, with that block. -/
def suffixMatch (ix : Index) (value : ByteArray) (start : Nat) : Option (Nat × Nat) :=
  (suffixSums value start).findSome? fun (pos, w) =>
    (ix.findIn value pos value.size w.digest).map fun block => (pos, block)

/-- Covers the bytes from `pos` on, where no full window matches: a literal, then the longest
suffix shorter than a block that is a block of the old value. -/
def finish (ix : Index) (value : ByteArray) (blockSize pos : Nat) (done : Array Segment) :
    Array Segment :=
  match suffixMatch ix value (value.size - min (blockSize - 1) (value.size - pos)) with
  | some (start, block) => (pushLiteral done pos start).push (.reference block start value.size)
  | none => pushLiteral done pos value.size

end Scan

/-- The segments of `value` against the blocks of `signature`. -/
def segments (signature : Signature) (value : ByteArray) (blockSize : Nat) : List Segment :=
  if value.size = 0 then []
  else if h : 0 < blockSize ∧ signature ≠ [] then
    let ix := Index.ofSignature signature
    let (done, pos) := Scan.fullBlocks ix value blockSize h.1 0 #[]
    (Scan.finish ix value blockSize pos done).toList
  else [.literal 0 value.size]

/-- The delta that rebuilds `value` from the old value with the signature `signature`. -/
def diff (signature : Signature) (value : ByteArray) (blockSize : Nat) : Delta :=
  (segments signature value blockSize).map (Segment.instruction value)

end DeltaMesh
