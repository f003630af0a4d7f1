import DeltaMesh.Json.Reader

/-!
# Numbers in JSON

Digits are gathered into a word of 64 bits as long as they fit. Further digits before the point
only raise the exponent, and further digits behind it are dropped. A number without point and
exponent that fits is whole; any other becomes a floating-point number, by one multiplication with
a power of ten or, for small numbers, by divisions.

This is how the reader behind the program's `from_json` takes numbers.
-/

namespace DeltaMesh.Json

/-- A number as it was written. -/
inductive Number
  | whole (n : Nat)
  /-- The opposite of a number that is not zero. -/
  | negative (n : Nat)
  | real (x : Float)

/-- What a number is found to be where something else is wanted. -/
def Number.found : Number → Found
  | whole n => .integer n
  | negative n => .integer (-n)
  | real x => .float x

/-- The largest word of 64 bits. -/
def maxWord : Nat := 0xffffffffffffffff

/-- Gathers digits as long as they fit into a word; the digits that do not are left over. -/
def gather (n : Nat) : List Nat → Nat × List Nat
  | [] => (n, [])
  | d :: rest => if maxWord < 10 * n + d then (n, d :: rest) else gather (10 * n + d) rest

/-- A power of ten. -/
def powerOfTen (n : Nat) : Float := Float.ofScientific 1 false n

/-- The largest exponent of a power of ten. -/
def maxPower : Nat := 308

/-- The number `x * 10 ^ exponent`, for `x` that is not negative; there is none if it is too
large. -/
def scaled (x : Float) (exponent : Int) : Option Float :=
  if exponent.natAbs ≤ maxPower then
    if 0 ≤ exponent then
      let scaledUp := x * powerOfTen exponent.toNat
      if scaledUp.isInf then none else some scaledUp
    else some (x / powerOfTen (-exponent).toNat)
  else if x == 0 then some x
  else if _h : 0 ≤ exponent then none
  else scaled (x / powerOfTen maxPower) (exponent + maxPower)
termination_by (-exponent).toNat
decreasing_by
  simp only [maxPower]
  omega

/-- The largest exponent that is told apart from larger ones. -/
def maxExponent : Nat := 0x7fffffff

/-- An exponent moved into the range of a word of 32 bits with a sign. -/
def clampExponent (n : Int) : Int :=
  if n < -(maxExponent : Int) - 1 then -(maxExponent : Int) - 1
  else if (maxExponent : Int) < n then maxExponent
  else n

namespace Reader

/-- The longest run of digits. -/
def digits : Reader (List Nat) := do
  let isDigit (b : UInt8) : Bool := 48 ≤ b && b ≤ 57
  let c ← get
  let behind := c.skipWhile isDigit
  set behind
  return (c.upTo behind).data.toList.map (·.toNat - 48)

/-- Digits have to follow. -/
def someDigits : Reader (List Nat) := do
  let ds ← digits
  if ds.isEmpty then
    if ← atEnd then throw .unfinished else throw .malformed
  return ds

/-- The next byte if it is one of `cs`; otherwise it is left in place. -/
def takeOneOf (cs : List Char) : Reader (Option Char) := do
  match (← get).head?.map Char.ofUInt8 with
  | some c =>
    if cs.contains c then
      drop
      return some c
    else return none
  | none => return none

/-- The floating-point number of a significand and an exponent. -/
def realOf (positive : Bool) (significand : Nat) (exponent : Int) : Reader Number :=
  match scaled significand.toUInt64.toFloat exponent with
  | some x => return .real (if positive then x else -x)
  | none => throw .malformed

/-- The number that digits write; larger ones than `maxExponent` are not told apart. -/
def exponentSize (ds : List Nat) : Nat :=
  ds.foldl (fun n d => min (10 * n + d) (maxExponent + 1)) 0

/-- An exponent that was announced by its letter; `start` is added to it. -/
def exponentPart (positive : Bool) (significand : Nat) (start : Int) : Reader Number := do
  let sign ← takeOneOf ['+', '-']
  let size := exponentSize (← someDigits)
  if size ≤ maxExponent then
    let exponent := if sign = some '-' then start - Int.ofNat size else start + Int.ofNat size
    realOf positive significand (clampExponent exponent)
  else if significand ≠ 0 ∧ sign ≠ some '-' then throw .malformed
  else return .real (if positive then 0 else -0)

/-- The digits behind the point; `start` is the exponent so far. -/
def fractionPart (positive : Bool) (significand : Nat) (start : Int) : Reader Number := do
  let ds ← someDigits
  let (significand, dropped) := gather significand ds
  let exponent := start - (ds.length - dropped.length : Nat)
  if (← takeOneOf ['e', 'E']).isSome then exponentPart positive significand exponent
  else realOf positive significand exponent

/-- The number whose digits are to come. No digit follows a zero at the front. -/
def unsigned (positive : Bool) : Reader Number := do
  let ds ← someDigits
  if ds.head? = some 0 ∧ 1 < ds.length then throw .malformed
  let (significand, dropped) := gather 0 ds
  match ← takeOneOf ['.', 'e', 'E'] with
  | some '.' => fractionPart positive significand dropped.length
  | some _ => exponentPart positive significand dropped.length
  | none =>
    if ¬dropped.isEmpty then realOf positive significand dropped.length
    else if positive then return .whole significand
    else if 0 < significand ∧ significand ≤ 0x8000000000000000 then return .negative significand
    else return .real (-significand.toUInt64.toFloat)

/-- A number, of which `c` is the first byte. -/
def number (c : Char) : Reader Number := do
  if c = '-' then
    drop
    unsigned false
  else unsigned true

/-! ### Passing over numbers -/

/-- Passes over digits, of which there has to be one; a text that ends here is malformed. -/
def skipDigits : Reader Unit := do
  if (← digits).isEmpty then throw .malformed

/-- Passes over a number; only its form matters. -/
def skipNumber (c : Char) : Reader Unit := do
  if c = '-' then drop
  let ds ← digits
  if ds.isEmpty ∨ (ds.head? = some 0 ∧ 1 < ds.length) then throw .malformed
  if (← takeOneOf ['.']).isSome then skipDigits
  if (← takeOneOf ['e', 'E']).isSome then
    discard <| takeOneOf ['+', '-']
    skipDigits

end Reader

end DeltaMesh.Json
