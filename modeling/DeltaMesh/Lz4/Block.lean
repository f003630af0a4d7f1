import DeltaMesh.Lz4.Plan

/-!
# Writing and reading LZ4 blocks

A block is a row of sequences. A token holds two lengths of four bits each, the literal's and the
match's; a length that does not fit goes on in further bytes. Behind the token come the literal
bytes and the distance of the match in two bytes; the last sequence ends with its literal.
`compress` writes the greedy plan of an input. `expand` reads any block into at most the asked
number of bytes and refuses a block that is cut off, that points before the beginning or that
would write too much; a block may stop early.

This is the compressor behind `encode_payload` and the expander behind `decode_payload`.
-/

namespace DeltaMesh.Lz4

/-! ### Writing -/

/-- The bytes that carry a length on, once the nibble is full. -/
def lengthTail (n : Nat) (out : ByteArray) : ByteArray :=
  if n < 255 then out.push n.toUInt8 else lengthTail (n - 255) (out.push 255)
termination_by n

/-- The nibble that a length begins with. -/
def nibble (n : Nat) : Nat := min n 15

/-- The further bytes of a length, if it does not fit into its nibble. -/
def pushLength (n : Nat) (out : ByteArray) : ByteArray :=
  if n < 15 then out else lengthTail (n - 15) out

/-- The token of a literal length and a match length. -/
def token (literalLength matchLength : Nat) : UInt8 :=
  (nibble literalLength * 16 + nibble matchLength).toUInt8

/-- Writes the literal `[start, stop)` behind a token that also announces `matchLength`. -/
def pushLiteral (x : ByteArray) (start stop matchLength : Nat) (out : ByteArray) : ByteArray :=
  pushLength (stop - start) (out.push (token (stop - start) matchLength)) ++ x.extract start stop

/-- Writes a literal and a match. -/
def pushSequence (x : ByteArray) (out : ByteArray) (s : Sequence) : ByteArray :=
  let extra := s.matchStop - s.matchStart - minMatch
  let out := pushLiteral x s.literalStart s.matchStart extra out
  pushLength extra ((out.push s.offset.toUInt8).push (s.offset / 256).toUInt8)

/-- The block that a plan describes. -/
def Plan.write (p : Plan) (x : ByteArray) : ByteArray :=
  pushLiteral x p.lastLiteral x.size 0 (p.sequences.foldl (pushSequence x) .empty)

/-- The block of `x`. -/
def compress (x : ByteArray) : ByteArray := (plan x).write x

/-! ### Reading -/

/-- Why a block could not be read. -/
inductive Fault
  /-- The block ends where a token, a length or a distance is due. -/
  | missingByte
  /-- A literal is longer than the rest of the block. -/
  | literalTooLong
  /-- The output would have `needed` bytes but may have only `room`. -/
  | tooMuchOutput (room needed : Nat)
  /-- A match at distance zero. -/
  | zeroOffset
  /-- A match that begins before the output. -/
  | offsetTooFar
  deriving DecidableEq, Repr

def Fault.message : Fault → String
  | .missingByte => "expected another byte, found none"
  | .literalTooLong => "literal is out of bounds of the input"
  | .tooMuchOutput room needed =>
    "provided output is too small for the decompressed data, actual " ++ toString room ++
      ", expected " ++ toString needed
  | .zeroOffset => "0 is not a valid match offset"
  | .offsetTooFar => "the offset to copy is not contained in the decompressed buffer"

/-- Adds the further bytes of a length, which end with the first that is not 255. -/
def readTail (block : ByteArray) (pos total : Nat) : Except Fault (Nat × Nat) :=
  if h : pos < block.size then
    if block[pos] = 255 then readTail block (pos + 1) (total + 255)
    else .ok (total + block[pos].toNat, pos + 1)
  else .error .missingByte
termination_by block.size - pos

/-- The length that begins with `nibble`, and the place behind it. -/
def readLength (block : ByteArray) (nibble pos : Nat) : Except Fault (Nat × Nat) :=
  if nibble = 15 then readTail block pos 15 else .ok (nibble, pos)

/-- Copies `n` bytes from `offset` places before the end of the output, which may reach into the
bytes just copied. -/
def copyBack (offset : Nat) : (n : Nat) → (out : ByteArray) → ByteArray
  | 0, out => out
  | n + 1, out => copyBack offset n (out.push (byteAt out (out.size - offset)))

/-- What follows a literal. -/
inductive Next
  /-- The block ends. -/
  | finished (out : ByteArray)
  /-- The next token is at `pos`. -/
  | more (pos : Nat) (out : ByteArray)

/-- Reads the match whose distance is at `pos`. -/
def readMatch (block : ByteArray) (room nibble pos : Nat) (out : ByteArray) :
    Except Fault Next := do
  if block.size < pos + 2 then throw .missingByte
  let offset := (byteAt block pos).toNat + 256 * (byteAt block (pos + 1)).toNat
  if offset = 0 then throw .zeroOffset
  let (extra, pos) ← readLength block nibble (pos + 2)
  let length := minMatch + extra
  if room < out.size + length then throw (.tooMuchOutput room (out.size + length))
  if out.size < offset then throw .offsetTooFar
  return .more pos (copyBack offset length out)

/-- Reads the sequence whose token is at `pos`. -/
def readSequence (block : ByteArray) (room pos : Nat) (out : ByteArray) : Except Fault Next := do
  if block.size ≤ pos then throw .missingByte
  let token := (byteAt block pos).toNat
  let (length, pos) ← readLength block (token / 16) (pos + 1)
  if block.size < pos + length then throw .literalTooLong
  if room < out.size + length then throw (.tooMuchOutput room (out.size + length))
  let out := out ++ block.extract pos (pos + length)
  let pos := pos + length
  if pos = block.size then return .finished out
  readMatch block room (token % 16) pos out

/-- Reads sequences from `pos` on, at most `fuel` of them. -/
def expandFrom (block : ByteArray) (room : Nat) :
    (fuel pos : Nat) → (out : ByteArray) → Except Fault ByteArray
  | 0, _, _ => .error .missingByte
  | fuel + 1, pos, out =>
    match readSequence block room pos out with
    | .error e => .error e
    | .ok (.finished out) => .ok out
    | .ok (.more pos out) => expandFrom block room fuel pos out

/-- The bytes of `block`, which may be at most `room`. Every sequence takes a byte of the block, so
their number is bounded by the block's size. -/
def expand (block : ByteArray) (room : Nat) : Except Fault ByteArray :=
  expandFrom block room (block.size + 1) 0 .empty

end DeltaMesh.Lz4
