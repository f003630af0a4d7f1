import DeltaMesh.Decimal.Shortest

/-!
# Writing shortest decimals

Two ways to write a floating-point number with the digits of `shortest`: `plainText` never uses an
exponent and writes whole numbers without a point; `pointText` always shows a point or an exponent,
and uses an exponent for very large and very small numbers. Of two shortest decimals that are
equally near, `plainText` takes the larger one and `pointText` the even one.

`plainText` is how the errors of `validate` show a number, `pointText` how the reader behind
`from_json` does in its own.
-/

namespace DeltaMesh

namespace Decimal

/-- The digits with the point in its place. -/
def positional (d : Decimal) : String :=
  let digits := toString d.digits
  if 0 ≤ d.exponent then digits.pushn '0' d.exponent.toNat
  else
    let behind := (-d.exponent).toNat
    if behind < digits.length then
      (digits.take (digits.length - behind)).toString ++ "." ++
        (digits.drop (digits.length - behind)).toString
    else "0." ++ "".pushn '0' (behind - digits.length) ++ digits

/-- One digit before the point, and an exponent with its sign. -/
def scientific (d : Decimal) : String :=
  let digits := toString d.digits
  (digits.take 1).toString ++ (if digits.length = 1 then "" else "." ++ (digits.drop 1).toString) ++
    "e" ++ (if 0 ≤ d.magnitude then "+" else "-") ++ toString d.magnitude.natAbs

/-- Whether the point form is written without an exponent. -/
def isModerate (d : Decimal) : Bool :=
  d.digits = 0 || (-5 ≤ d.magnitude && d.magnitude ≤ 15)

end Decimal

/-- The text of a number whose size is written by `write`. -/
def Binary64.textBy (tie : Tie) (write : Decimal → String) : Binary64 → String
  | .notANumber => "NaN"
  | .infinite negative => if negative then "-inf" else "inf"
  | .finite negative m q => (if negative then "-" else "") ++ write (shortest tie m q)

/-- A number without an exponent. -/
def plainText (x : Float) : String := (Binary64.ofFloat x).textBy .up Decimal.positional

/-- A number with a point or an exponent. -/
def pointText (x : Float) : String :=
  (Binary64.ofFloat x).textBy .toEven fun d =>
    if !d.isModerate then d.scientific
    else if 0 ≤ d.exponent then d.positional ++ ".0"
    else d.positional

end DeltaMesh
