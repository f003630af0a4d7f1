import DeltaMesh.Delta.Block
import DeltaMesh.Delta.Instruction

/-!
# Rebuilding a value

The program's `block_range` and `reconstruct`, with the panics that they can end in.

`reconstruct` replays a delta against the old value and goes through it twice. The first pass checks
every reference and adds up the length of the result in a word of 64 bits, which may overflow; as
many bytes of room are then set aside. The second pass makes every check once more, of the index and
of the bounds of the block, and copies behind what it has copied before, for which there has to be
room as well. The only error that is returned is a reference to a block that the old value does not
have; the first one in the delta is reported.

`rebuild` is the value alone, without regard to room. It is what `reconstruct` gives as long as the
result is no longer than a value can be.
-/

namespace DeltaMesh

/-- A delta names block `index` of a value that has only `blocks` blocks. -/
structure OutOfRange where
  index : UInt32
  blocks : Nat
  deriving DecidableEq, Repr

def OutOfRange.message (e : OutOfRange) : String :=
  "Block reference " ++ toString e.index.toNat ++ " out of range: base has " ++
    toString e.blocks ++ " blocks"

/-- Where the block that a reference names begins and ends in a value of `length` bytes. -/
def blockRange (length blockSize : Nat) (index : UInt32) : Except OutOfRange (Nat × Nat) :=
  let count := blockCount length blockSize
  if index.toNat < count then
    .ok (blockStart blockSize index.toNat, blockStop length blockSize index.toNat)
  else .error ⟨index, count⟩

/-- How many bytes an instruction adds to a value rebuilt from `base`. -/
def Instruction.measure (base : ByteArray) (blockSize : Nat) :
    Instruction → Except OutOfRange Nat
  | .literal bytes => .ok bytes.size
  | .reference index => do
    let (start, stop) ← blockRange base.size blockSize index
    return stop - start

/-! ### The value alone -/

/-- The bytes that an instruction adds. -/
def Instruction.bytesFrom (base : ByteArray) (blockSize : Nat) : Instruction → ByteArray
  | .literal bytes => bytes
  | .reference index => blockAt base blockSize index.toNat

/-- Looks for the first reference that is out of range. -/
def Delta.check (base : ByteArray) (blockSize : Nat) (delta : Delta) : Except OutOfRange Unit :=
  forM delta fun i => discard (i.measure base blockSize)

/-- The value that `delta` describes on top of `base`, if all its references are in range. -/
def rebuild (base : ByteArray) (delta : Delta) (blockSize : Nat) :
    Except OutOfRange ByteArray := do
  delta.check base blockSize
  return delta.foldl (fun out i => out ++ i.bytesFrom base blockSize) .empty

/-! ### Both passes, with the room that they take -/

/-- Why rebuilding stops. Only the first of these is returned as an error, the others are panics. -/
inductive RebuildFault
  | outOfRange (why : OutOfRange)
  /-- A value has no bytes `[start, stop)`. -/
  | outOfBounds (start stop : Nat)
  /-- The result, or the sum of its lengths, does not fit. -/
  | noRoom
  deriving DecidableEq

/-- How long a value can be: its length fits into a signed word of 64 bits. -/
def maxRoom : Nat := UInt64.size / 2 - 1

/-- What an addition of lengths does past 64 bits, which is settled when the program is built. -/
inductive Overflow
  | wraps
  | panics

def Overflow.add (overflow : Overflow) (total : UInt64) (length : Nat) :
    Except RebuildFault UInt64 :=
  match overflow with
  | .wraps => .ok (total + length.toUInt64)
  | .panics =>
    if total.toNat + length < UInt64.size then .ok (total + length.toUInt64) else .error .noRoom

/-- The first pass: adds the length of the result to `total`. -/
def Delta.measure (overflow : Overflow) (base : ByteArray) (blockSize : Nat) (delta : Delta)
    (total : UInt64) : Except RebuildFault UInt64 :=
  delta.foldlM (fun total i => do
    overflow.add total (← (i.measure base blockSize).mapError .outOfRange)) total

/-- Nothing yet, with room for so many bytes. -/
def setAside (total : UInt64) : Except RebuildFault ByteArray :=
  if total.toNat ≤ maxRoom then .ok (.emptyWithCapacity total.toNat) else .error .noRoom

/-- Copies `bytes` behind `out`. -/
def extend (out bytes : ByteArray) : Except RebuildFault ByteArray :=
  if out.size + bytes.size ≤ maxRoom then .ok (out ++ bytes) else .error .noRoom

/-- The bytes `[start, stop)` of `base`, of which there have to be so many. -/
def slice (base : ByteArray) (start stop : Nat) : Except RebuildFault ByteArray :=
  if start ≤ stop ∧ stop ≤ base.size then .ok (base.extract start stop)
  else .error (.outOfBounds start stop)

/-- Copies what an instruction stands for behind `out`. -/
def Instruction.copy (base : ByteArray) (blockSize : Nat) (out : ByteArray) :
    Instruction → Except RebuildFault ByteArray
  | .literal bytes => extend out bytes
  | .reference index => do
    let (start, stop) ← (blockRange base.size blockSize index).mapError .outOfRange
    extend out (← slice base start stop)

/-- The second pass: copies what a delta stands for behind `out`. -/
def Delta.copy (base : ByteArray) (blockSize : Nat) (delta : Delta) (out : ByteArray) :
    Except RebuildFault ByteArray :=
  delta.foldlM (Instruction.copy base blockSize) out

/-- Replays `delta` on top of `base`. -/
def reconstruct (overflow : Overflow) (base : ByteArray) (delta : Delta) (blockSize : Nat) :
    Except RebuildFault ByteArray := do
  let total ← delta.measure overflow base blockSize 0
  delta.copy base blockSize (← setAside total)

end DeltaMesh
