/-!
# Planning an LZ4 block

A `Sequence` takes a stretch of the input as it is and then repeats bytes that came before.
`plan` finds the sequences greedily: a table remembers, for every hash of the bytes at a place,
the last place with that hash; a place whose bytes equal those of the remembered place begins a
match, which is stretched to both sides. Places are skipped faster the longer nothing matches.
The plan only holds places and lengths; the bytes are written by `Lz4.compress`.

This is the search of the compressor behind `encode_payload`.
-/

namespace DeltaMesh.Lz4

/-- A stretch `[literalStart, matchStart)` of the input, and behind it `[matchStart, matchStop)`,
which equals the bytes `offset` places before. -/
structure Sequence where
  literalStart : Nat
  matchStart : Nat
  matchStop : Nat
  offset : Nat
  deriving DecidableEq, Repr

/-- The sequences of an input, and where the literal behind the last of them begins. -/
structure Plan where
  sequences : Array Sequence
  lastLiteral : Nat

/-- No match begins in the last bytes of the input. -/
def matchMargin : Nat := 12

/-- No match reaches into the last bytes of the input. -/
def tailMargin : Nat := 6

/-- The shortest match. -/
def minMatch : Nat := 4

/-- The farthest distance of a match. -/
def maxOffset : Nat := 65535

/-- From this length on, five bytes are hashed instead of four. -/
def wideFrom : Nat := 65535

def tableSize : Nat := 4096

/-- The byte at `i`, or zero behind the end. -/
@[inline] def byteAt (x : ByteArray) (i : Nat) : UInt8 :=
  if h : i < x.size then x[i] else 0

/-- The little-endian word of four bytes at `i`. -/
@[inline] def word32 (x : ByteArray) (i : Nat) : UInt32 :=
  (byteAt x i).toUInt32 ||| ((byteAt x (i + 1)).toUInt32 <<< 8) |||
    ((byteAt x (i + 2)).toUInt32 <<< 16) ||| ((byteAt x (i + 3)).toUInt32 <<< 24)

/-- The little-endian word of eight bytes at `i`. -/
@[inline] def word64 (x : ByteArray) (i : Nat) : UInt64 :=
  (word32 x i).toUInt64 ||| ((word32 x (i + 4)).toUInt64 <<< 32)

/-- The place of the table that remembers the bytes at `i`. -/
def slot (x : ByteArray) (i : Nat) : Nat :=
  if x.size < wideFrom then
    (((word32 x i * 2654435761) >>> 16) >>> 4).toNat
  else
    ((((word64 x i <<< 24) * 889523592379) >>> 48) >>> 4).toNat

/-- The last place remembered for each hash. -/
abbrev Table := Array Nat

def Table.empty : Table := Array.replicate tableSize 0

def Table.at (t : Table) (s : Nat) : Nat := t.getD s 0

def Table.put (t : Table) (s i : Nat) : Table := t.setIfInBounds s i

/-- Looks for a match from `cur` on; `misses` places were tried in vain since the last one. The
distance to the next place grows by one for every 32 misses. -/
def probe (x : ByteArray) (table : Table) (cur misses : Nat) : Table × Option (Nat × Nat) :=
  if cur + matchMargin ≤ x.size then
    let s := slot x cur
    let candidate := table.at s
    let table := table.put s cur
    if cur - candidate ≤ maxOffset ∧ word32 x candidate = word32 x cur then
      (table, some (cur, candidate))
    else
      probe x table (cur + (32 + misses) / 32) (misses + 1)
  else (table, none)
termination_by x.size - cur
decreasing_by
  have : 0 < (32 + misses) / 32 := by omega
  simp only [matchMargin] at *
  omega

/-- How many bytes before `cur` and before `candidate` agree, without reaching before
`literalStart`. -/
def backward (x : ByteArray) (literalStart cur : Nat) : (candidate : Nat) → Nat
  | 0 => 0
  | candidate + 1 =>
    if literalStart < cur ∧ byteAt x (cur - 1) = byteAt x candidate then
      backward x literalStart (cur - 1) candidate + 1
    else 0

/-- The end of the equal bytes that begin at `cur` and at `candidate`. -/
def forward (x : ByteArray) (cur candidate : Nat) : Nat :=
  if cur + tailMargin < x.size ∧ byteAt x cur = byteAt x candidate then
    forward x (cur + 1) (candidate + 1)
  else cur
termination_by x.size - cur

theorem le_forward (x : ByteArray) (cur candidate : Nat) : cur ≤ forward x cur candidate := by
  induction cur, candidate using forward.induct x with
  | case1 cur candidate h ih => rw [forward, if_pos h]; omega
  | case2 cur candidate h =>
    have : forward x cur candidate = cur := by rw [forward, if_neg h]
    omega

theorem probe_bounds {x : ByteArray} {table table' : Table} {cur misses i c : Nat}
    (h : probe x table cur misses = (table', some (i, c))) :
    cur ≤ i ∧ i + matchMargin ≤ x.size := by
  fun_induction probe x table cur misses with
  | case1 => simp_all
  | case2 _ _ _ _ _ _ _ _ ih =>
    have := ih h
    omega
  | case3 => simp at h

/-- Adds the sequences whose matches begin at `cur` or later; `literalStart` is the first byte
that no sequence covers. -/
def planFrom (x : ByteArray) (table : Table) (literalStart cur : Nat) (done : Array Sequence) :
    Plan :=
  match h : probe x table cur 0 with
  | (_, none) => ⟨done, literalStart⟩
  | (table, some (i, candidate)) =>
    have := probe_bounds h
    let matchStart := i - backward x literalStart i candidate
    let matchStop := forward x (i + minMatch) (candidate + minMatch)
    have := le_forward x (i + minMatch) (candidate + minMatch)
    let table := table.put (slot x (matchStop - 2)) (matchStop - 2)
    planFrom x table matchStop matchStop
      (done.push ⟨literalStart, matchStart, matchStop, i - candidate⟩)
termination_by x.size - cur
decreasing_by simp only [matchMargin, minMatch] at *; omega

/-- The greedy plan for `x`. An input too short for any match is one literal. -/
def plan (x : ByteArray) : Plan :=
  if x.size ≤ matchMargin then ⟨#[], 0⟩
  else planFrom x (Table.empty.put (slot x 0) 0) 0 1 #[]

end DeltaMesh.Lz4
