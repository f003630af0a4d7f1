import DeltaMesh.Decimal.Binary64

/-!
# Decimals with a fixed number of places

`fixedText places x` writes the number with exactly `places` digits behind the point. The exact
binary value is rounded to the nearest such decimal and a tie goes to the even neighbour; the
sign of the number is kept even when every digit is zero.

The texts of the program's `DeltaStats` and `StorageStats` write their ratios and sizes like this.
-/

namespace DeltaMesh

/-- The whole number nearest to `num / den`; of two nearest ones the even one. -/
def roundHalfEven (num den : Nat) : Nat :=
  let low := num / den
  let rest := num % den
  if 2 * rest < den then low
  else if den < 2 * rest then low + 1
  else if low % 2 = 0 then low else low + 1

/-- The number `n / 10 ^ places`, written with `places` digits behind the point. -/
def placesText (n places : Nat) : String :=
  if places = 0 then toString n
  else
    let behind := toString (n % Nat.pow 10 places)
    toString (n / Nat.pow 10 places) ++ "." ++ "".pushn '0' (places - behind.length) ++ behind

/-- A binary number with `places` digits behind the point. -/
def Binary64.fixedText (places : Nat) : Binary64 → String
  | .notANumber => "NaN"
  | .infinite negative => if negative then "-inf" else "inf"
  | .finite negative m q =>
    let scaled := roundHalfEven (m * Nat.pow 10 places * Nat.pow 2 q.toNat) (Nat.pow 2 (-q).toNat)
    (if negative then "-" else "") ++ placesText scaled places

def fixedText (places : Nat) (x : Float) : String :=
  (Binary64.ofFloat x).fixedText places

end DeltaMesh
