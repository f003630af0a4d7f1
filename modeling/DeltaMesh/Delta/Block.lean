/-!
# Blocks of a value

A value is cut into blocks of one size; the last block may be shorter. A block size of zero cuts
no blocks. `blockCount` counts them, `blockStart` and `blockStop` bound the block of an index, and
`blocks` lists them from left to right.

The program's `block_count`, the ends of `block_range`, and the chunks that `compute_checksums`
goes through.
-/

namespace DeltaMesh

/-- How many blocks of `blockSize` bytes a value of `length` bytes has. -/
def blockCount (length blockSize : Nat) : Nat :=
  if blockSize = 0 then 0 else (length + (blockSize - 1)) / blockSize

/-- Where block `index` begins. -/
def blockStart (blockSize index : Nat) : Nat := index * blockSize

/-- Where block `index` of a value of `length` bytes ends. -/
def blockStop (length blockSize index : Nat) : Nat :=
  min (blockStart blockSize index + blockSize) length

/-- The bytes of block `index`. -/
def blockAt (value : ByteArray) (blockSize index : Nat) : ByteArray :=
  value.extract (blockStart blockSize index) (blockStop value.size blockSize index)

/-- Cuts off one block after the other from `pos` on. -/
def blocksFrom (value : ByteArray) (blockSize : Nat) (h : 0 < blockSize) (pos : Nat)
    (done : Array ByteArray) : Array ByteArray :=
  if pos < value.size then
    blocksFrom value blockSize h (pos + blockSize) (done.push (value.extract pos (pos + blockSize)))
  else done
termination_by value.size - pos

/-- The blocks of a value, from left to right. -/
def blocks (value : ByteArray) (blockSize : Nat) : List ByteArray :=
  if h : 0 < blockSize then (blocksFrom value blockSize h 0 #[]).toList else []

end DeltaMesh
