/-!
# Instructions

A delta is a list of instructions. Replayed against the old value it rebuilds the new one: each
instruction either copies a block of the old value or carries bytes of its own.

The program's `Instruction`.
-/

namespace DeltaMesh

/-- One step of rebuilding a value. -/
inductive Instruction
  /-- The bytes of block `index` of the old value. -/
  | reference (index : UInt32)
  /-- The bytes `bytes`. -/
  | literal (bytes : ByteArray)

/-- The steps that rebuild a value, in order. -/
abbrev Delta := List Instruction

end DeltaMesh
