import DeltaMesh.Decimal.Binary64

/-!
# The shortest decimal of a binary number

Every real number in an interval around a finite `Float` rounds to it; the ends belong to the
interval if the significand is even. `shortest` is the decimal in that interval with the fewest
digits and, of those, the one nearest to the number itself; a `Tie` decides between two nearest
ones. For each number of digits only the two neighbours of the number on the decimal grid have to
be tried: if any point of a grid lies in the interval, then so does one of them.

The numbers in the errors of `validate` and of the reader behind `from_json` are such decimals.
-/

namespace DeltaMesh

/-- Which of two decimals to take that are equally near. -/
inductive Tie
  /-- The one whose last digit is even. -/
  | toEven
  /-- The larger one. -/
  | up
  deriving DecidableEq, Repr

/-- Whether the smaller one of the decimals `below` and `below + 1` is taken. -/
def Tie.takesBelow : Tie → (below : Nat) → Bool
  | toEven, below => below % 2 = 0
  | up, _ => false

/-- The number `digits * 10 ^ exponent`. -/
structure Decimal where
  digits : Nat
  exponent : Int
  deriving DecidableEq, Repr

namespace Decimal

/-- Drops zeros at the end of the digits. -/
def trimUpTo : (zeros : Nat) → Decimal → Decimal
  | 0, d => d
  | zeros + 1, d =>
    if d.digits ≠ 0 ∧ d.digits % 10 = 0 then trimUpTo zeros ⟨d.digits / 10, d.exponent + 1⟩ else d

/-- The power of ten that belongs to the first digit. -/
def magnitude (d : Decimal) : Int := d.exponent + ((toString d.digits).length - 1 : Nat)

end Decimal

namespace Shortest

/-- How many decimal digits stand before the point of `num / den`, if it is at least one. -/
def digitsBefore (num den : Nat) : Nat := (Nat.toDigits 10 (num / den)).length

/-- How many zeros follow the point of `num / den`, if it is less than one; the search ends after
`limit` zeros. -/
def zerosBehind (den : Nat) : (limit : Nat) → (num : Nat) → Nat
  | 0, _ => 0
  | limit + 1, num => if den ≤ num * 10 then 0 else zerosBehind den limit (num * 10) + 1

/-- The power of ten of the first digit of `num / den`. -/
def magnitude (num den : Nat) : Int :=
  if den ≤ num then digitsBefore num den - 1 else -(zerosBehind den 400 num : Int) - 1

/-- A number and the interval around it, as multiples of a common unit `num / den`. -/
structure Interval where
  num : Nat
  den : Nat
  low : Nat
  middle : Nat
  high : Nat
  /-- Whether the ends belong to the interval. -/
  closed : Bool

/-- The numbers that round to `m * 2 ^ q`; towards zero the interval is only half as long if `m` is
the smallest significand of its exponent. -/
def Interval.around (m : Nat) (q : Int) : Interval where
  num := Nat.pow 2 (q - 2).toNat
  den := Nat.pow 2 (2 - q).toNat
  low := if m = 0x10000000000000 ∧ -1074 < q then 4 * m - 1 else 4 * m - 2
  middle := 4 * m
  high := 4 * m + 2
  closed := m % 2 = 0

/-- Whether `point * 10 ^ scale` lies in the interval. -/
def Interval.contains (i : Interval) (point : Nat) (scale : Int) : Bool :=
  let at_ := point * Nat.pow 10 scale.toNat * i.den
  let low := i.low * i.num * Nat.pow 10 (-scale).toNat
  let high := i.high * i.num * Nat.pow 10 (-scale).toNat
  if i.closed then low ≤ at_ && at_ ≤ high else low < at_ && at_ < high

/-- The point of the grid `10 ^ scale` in the interval that is nearest to the middle. -/
def Interval.pointOn (i : Interval) (tie : Tie) (scale : Int) : Option Nat :=
  let num := i.middle * i.num * Nat.pow 10 (-scale).toNat
  let den := Nat.pow 10 scale.toNat * i.den
  let below := num / den
  let rest := num % den
  let belowFirst := 2 * rest < den || (2 * rest = den && tie.takesBelow below)
  [if belowFirst then below else below + 1, if belowFirst then below + 1 else below].find?
    (i.contains · scale)

/-- The decimal with the fewest digits, from `digits` on. -/
def search (i : Interval) (tie : Tie) (magnitude : Int) :
    (tries : Nat) → (digits : Nat) → Option Decimal
  | 0, _ => none
  | tries + 1, digits =>
    let scale := magnitude - digits + 1
    match i.pointOn tie scale with
    | some point => some (Decimal.trimUpTo 20 ⟨point, scale⟩)
    | none => search i tie magnitude tries (digits + 1)

end Shortest

/-- The shortest decimal that rounds to `m * 2 ^ q`. Seventeen digits are always enough. -/
def shortest (tie : Tie) (m : Nat) (q : Int) : Decimal :=
  if m = 0 then ⟨0, 0⟩
  else
    let i := Shortest.Interval.around m q
    (Shortest.search i tie (Shortest.magnitude (i.middle * i.num) i.den) 17 1).getD ⟨0, 0⟩

end DeltaMesh
