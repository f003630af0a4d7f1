/-!
# The BLAKE3 hash

`Blake3.hash` is the default mode of BLAKE3 with 32 bytes of output. The state of the
compression function is four rows of four words; a round mixes the columns, turns the rows so
that the diagonals become columns, mixes again and turns them back. The input is cut into
chunks of 1024 bytes, and a subtree over more than one chunk gives its left side the largest
power of two of chunks that leaves the right side at least one byte.

The program calls it in the `hash` of `Id160` and in `strong_hash`.
-/

namespace DeltaMesh.Blake3

/-! ### Rows of words -/

/-- Four words that are mixed side by side. -/
structure Row where
  w0 : UInt32
  w1 : UInt32
  w2 : UInt32
  w3 : UInt32

namespace Row

@[inline] def add (a b : Row) : Row :=
  ⟨a.w0 + b.w0, a.w1 + b.w1, a.w2 + b.w2, a.w3 + b.w3⟩

@[inline] def xor (a b : Row) : Row :=
  ⟨a.w0 ^^^ b.w0, a.w1 ^^^ b.w1, a.w2 ^^^ b.w2, a.w3 ^^^ b.w3⟩

/-- Rotates a word right by `k` bits, for `0 < k < 32`. -/
@[inline] def rotateWord (w k : UInt32) : UInt32 :=
  (w >>> k) ||| (w <<< (32 - k))

@[inline] def rotate (a : Row) (k : UInt32) : Row :=
  ⟨rotateWord a.w0 k, rotateWord a.w1 k, rotateWord a.w2 k, rotateWord a.w3 k⟩

/-- Moves every word one lane to the left, the first to the end. -/
@[inline] def turn (a : Row) : Row :=
  ⟨a.w1, a.w2, a.w3, a.w0⟩

end Row

/-- The sixteen words of the compression state, row by row. -/
structure State where
  a : Row
  b : Row
  c : Row
  d : Row

/-- Mixes the four columns with two message words each. -/
@[inline] def State.mixColumns (s : State) (x y : Row) : State :=
  let a := (s.a.add s.b).add x
  let d := (s.d.xor a).rotate 16
  let c := s.c.add d
  let b := (s.b.xor c).rotate 12
  let a := (a.add b).add y
  let d := (d.xor a).rotate 8
  let c := c.add d
  let b := (b.xor c).rotate 7
  ⟨a, b, c, d⟩

/-- Turns row `k` by `k` lanes, which makes the diagonals into columns. -/
@[inline] def State.diagonalize (s : State) : State :=
  ⟨s.a, s.b.turn, s.c.turn.turn, s.d.turn.turn.turn⟩

/-- Undoes `diagonalize`. -/
@[inline] def State.undiagonalize (s : State) : State :=
  ⟨s.a, s.b.turn.turn.turn, s.c.turn.turn, s.d.turn⟩

/-- The message words in the order a round takes them: the first and the second words of the
columns, then those of the diagonals. -/
structure Message where
  columns₁ : Row
  columns₂ : Row
  diagonals₁ : Row
  diagonals₂ : Row

/-- One round of the compression function. -/
@[inline] def State.round (s : State) (m : Message) : State :=
  ((s.mixColumns m.columns₁ m.columns₂).diagonalize.mixColumns
    m.diagonals₁ m.diagonals₂).undiagonalize

/-- The permutation of the message words between two rounds. -/
@[inline] def Message.permute (m : Message) : Message where
  columns₁ := ⟨m.columns₁.w1, m.columns₂.w1, m.columns₂.w3, m.columns₁.w2⟩
  columns₂ := ⟨m.columns₁.w3, m.diagonals₁.w1, m.columns₁.w0, m.diagonals₂.w2⟩
  diagonals₁ := ⟨m.columns₂.w0, m.diagonals₁.w2, m.diagonals₂.w0, m.diagonals₂.w3⟩
  diagonals₂ := ⟨m.diagonals₂.w1, m.columns₂.w2, m.diagonals₁.w3, m.diagonals₁.w0⟩

/-! ### Compression -/

/-- The first four initialization words. -/
def initLow : Row := ⟨0x6A09E667, 0xBB67AE85, 0x3C6EF372, 0xA54FF53A⟩

/-- The last four initialization words. -/
def initHigh : Row := ⟨0x510E527F, 0x9B05688C, 0x1F83D9AB, 0x5BE0CD19⟩

/-- Eight words that stand for a chunk, for a part of one or for a subtree. -/
structure ChainingValue where
  low : Row
  high : Row

/-- The chaining value that every chunk starts from. -/
def ChainingValue.initial : ChainingValue := ⟨initLow, initHigh⟩

def flagChunkStart : UInt32 := 1
def flagChunkEnd : UInt32 := 2
def flagParent : UInt32 := 4
def flagRoot : UInt32 := 8

/-- What one call of the compression function is given. -/
structure Block where
  cv : ChainingValue
  message : Message
  counter : UInt64
  length : UInt32
  flags : UInt32

/-- Seven rounds over the block, folded to eight words. -/
def Block.compress (k : Block) : ChainingValue :=
  let s : State :=
    ⟨k.cv.low, k.cv.high, initLow,
      ⟨k.counter.toUInt32, (k.counter >>> 32).toUInt32, k.length, k.flags⟩⟩
  let m := k.message
  let s := s.round m
  let m := m.permute
  let s := s.round m
  let m := m.permute
  let s := s.round m
  let m := m.permute
  let s := s.round m
  let m := m.permute
  let s := s.round m
  let m := m.permute
  let s := s.round m
  let m := m.permute
  let s := s.round m
  ⟨s.a.xor s.c, s.b.xor s.d⟩

/-! ### Chunks -/

/-- The byte at `i`, or zero at `stop` and beyond: a short block is padded with zeros. -/
@[inline] def byteAt (data : ByteArray) (stop i : Nat) : UInt32 :=
  if i < stop then
    if h : i < data.size then data[i].toUInt32 else 0
  else 0

/-- The little-endian word at `i`. -/
@[inline] def wordAt (data : ByteArray) (stop i : Nat) : UInt32 :=
  byteAt data stop i ||| (byteAt data stop (i + 1) <<< 8) |||
    (byteAt data stop (i + 2) <<< 16) ||| (byteAt data stop (i + 3) <<< 24)

/-- The sixteen message words at `i`. -/
def Message.read (data : ByteArray) (stop i : Nat) : Message :=
  let w := fun k => wordAt data stop (i + 4 * k)
  { columns₁ := ⟨w 0, w 2, w 4, w 6⟩
    columns₂ := ⟨w 1, w 3, w 5, w 7⟩
    diagonals₁ := ⟨w 8, w 10, w 12, w 14⟩
    diagonals₂ := ⟨w 9, w 11, w 13, w 15⟩ }

def blockBytes : Nat := 64

def chunkBytes : Nat := 1024

/-- The last block of the chunk `[pos, stop)`, the blocks before it compressed into its
chaining value. -/
def chunkFrom (data : ByteArray) (counter : UInt64) (stop pos : Nat) (cv : ChainingValue)
    (start : UInt32) : Block :=
  if stop - pos ≤ blockBytes then
    { cv, message := .read data stop pos, counter
      length := (stop - pos).toUInt32, flags := start ||| flagChunkEnd }
  else
    let head : Block :=
      { cv, message := .read data stop pos, counter
        length := blockBytes.toUInt32, flags := start }
    chunkFrom data counter stop (pos + blockBytes) head.compress 0
termination_by stop - pos
decreasing_by simp only [blockBytes] at *; omega

/-- The last block of the chunk `[start, stop)`. -/
def chunk (data : ByteArray) (start stop : Nat) : Block :=
  chunkFrom data (start / chunkBytes).toUInt64 stop start .initial flagChunkStart

/-! ### The tree -/

/-- The block that joins two subtrees. -/
def parent (left right : ChainingValue) : Block where
  cv := .initial
  message :=
    { columns₁ := ⟨left.low.w0, left.low.w2, left.high.w0, left.high.w2⟩
      columns₂ := ⟨left.low.w1, left.low.w3, left.high.w1, left.high.w3⟩
      diagonals₁ := ⟨right.low.w0, right.low.w2, right.high.w0, right.high.w2⟩
      diagonals₂ := ⟨right.low.w1, right.low.w3, right.high.w1, right.high.w3⟩ }
  counter := 0
  length := blockBytes.toUInt32
  flags := flagParent

/-- How many of `len` bytes go to the left subtree, when there is more than one chunk. -/
def leftBytes (len : Nat) : Nat :=
  chunkBytes * Nat.pow 2 ((len - 1) / chunkBytes).log2

theorem leftBytes_pos (len : Nat) : 0 < leftBytes len :=
  Nat.mul_pos (by decide) (Nat.two_pow_pos _)

theorem leftBytes_lt {len : Nat} (h : chunkBytes < len) : leftBytes len < len := by
  have hq : (len - 1) / chunkBytes ≠ 0 := by simp only [chunkBytes] at *; omega
  have hp := Nat.log2_self_le hq
  have : leftBytes len ≤ chunkBytes * ((len - 1) / chunkBytes) := Nat.mul_le_mul_left _ hp
  simp only [chunkBytes] at *
  omega

/-- The topmost block over `[start, start + len)`. -/
def subtree (data : ByteArray) (start len : Nat) : Block :=
  if h : len ≤ chunkBytes then chunk data start (start + len)
  else
    have := leftBytes_pos len
    have := leftBytes_lt (Nat.lt_of_not_le h)
    let left := subtree data start (leftBytes len)
    let right := subtree data (start + leftBytes len) (len - leftBytes len)
    parent left.compress right.compress
termination_by len

/-- The bytes of a word, least significant first. -/
def wordBytes (w : UInt32) : List UInt8 :=
  [w.toUInt8, (w >>> 8).toUInt8, (w >>> 16).toUInt8, (w >>> 24).toUInt8]

def Row.toBytes (r : Row) : List UInt8 :=
  wordBytes r.w0 ++ wordBytes r.w1 ++ wordBytes r.w2 ++ wordBytes r.w3

def ChainingValue.toBytes (v : ChainingValue) : List UInt8 :=
  v.low.toBytes ++ v.high.toBytes

/-- The 32 bytes of the hash of `data`. -/
def hash (data : ByteArray) : List UInt8 :=
  let root := subtree data 0 data.size
  ChainingValue.toBytes { root with flags := root.flags ||| flagRoot }.compress

@[simp] theorem length_hash (data : ByteArray) : (hash data).length = 32 := by
  simp [hash, ChainingValue.toBytes, Row.toBytes, wordBytes]

end DeltaMesh.Blake3
