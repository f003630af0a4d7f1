import DeltaMesh.Decimal.Fixed
import DeltaMesh.Delta.Instruction

/-!
# What a delta saves

A `Summary` sets a delta against a transfer of the whole value: how many bytes it takes from the
old value and how many it carries, and what its encoded form costs.

The program's `DeltaStats` with `new`, `bytes_saved`, `copy_ratio`, `savings_ratio` and its text.
-/

namespace DeltaMesh

/-- The figures of one delta. -/
structure Summary where
  /-- Bytes that come from blocks of the old value. -/
  referencedBytes : Nat
  /-- Bytes that the delta carries itself. -/
  literalBytes : Nat
  referenceOps : Nat
  literalOps : Nat
  /-- The size of the encoded delta. -/
  payloadSize : Nat
  /-- The size of the new value. -/
  targetSize : Nat
  deriving DecidableEq, Repr

/-- How many bytes the literals of a delta carry. -/
def Delta.literalBytes (delta : Delta) : Nat :=
  delta.foldr (fun
    | .literal bytes, n => bytes.size + n
    | .reference _, n => n) 0

/-- How many instructions of a delta are references. -/
def Delta.referenceOps (delta : Delta) : Nat :=
  delta.countP fun
    | .reference _ => true
    | .literal _ => false

/-- How many instructions of a delta are literals. -/
def Delta.literalOps (delta : Delta) : Nat :=
  delta.countP fun
    | .reference _ => false
    | .literal _ => true

namespace Summary

/-- The figures of `delta`, which describes a value of `targetSize` bytes and whose encoded form
has `payloadSize` bytes. What the literals do not carry is counted as referenced. -/
def ofDelta (delta : Delta) (targetSize payloadSize : Nat) : Summary where
  referencedBytes := targetSize - delta.literalBytes
  literalBytes := delta.literalBytes
  referenceOps := delta.referenceOps
  literalOps := delta.literalOps
  payloadSize := payloadSize
  targetSize := targetSize

/-- A count as a floating-point number. -/
def floatOf (n : Nat) : Float := n.toUInt64.toFloat

/-- The percentage of the new value that comes from blocks of the old one. -/
def copyRatio (s : Summary) : Float :=
  if s.targetSize = 0 then 0 else floatOf s.referencedBytes / floatOf s.targetSize * 100

/-- How many bytes fewer than the whole value were sent. -/
def bytesSaved (s : Summary) : Nat := s.targetSize - s.payloadSize

/-- The percentage of a whole transfer that was saved; negative if the delta was larger. -/
def savingsRatio (s : Summary) : Float :=
  if s.targetSize = 0 then 0 else (1 - floatOf s.payloadSize / floatOf s.targetSize) * 100

def toText (s : Summary) : String :=
  "Delta: " ++ toString s.referencedBytes ++ " referenced (" ++ fixedText 1 s.copyRatio ++
    "%), " ++ toString s.literalBytes ++ " literal, " ++
    toString (s.referenceOps + s.literalOps) ++ " total ops, " ++
    fixedText 1 s.savingsRatio ++ "% savings"

end Summary

end DeltaMesh
