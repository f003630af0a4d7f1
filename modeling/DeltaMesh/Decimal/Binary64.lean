/-!
# Binary floating-point numbers as fractions

A finite `Float` is `± m * 2 ^ q`. `Binary64.ofFloat` reads sign, `m` and `q` off the bits;
infinities and the values that are no numbers are kept apart.

Whatever the program shows of a floating-point number is read off these fractions.
-/

namespace DeltaMesh

/-- What the bits of a `Float` denote. -/
inductive Binary64
  /-- The number `m * 2 ^ q`, or its opposite; zero keeps its sign. -/
  | finite (negative : Bool) (m : Nat) (q : Int)
  | infinite (negative : Bool)
  | notANumber
  deriving DecidableEq, Repr

namespace Binary64

/-- Reads the sign, the eleven bits of exponent and the 52 bits of mantissa. -/
def ofBits (bits : UInt64) : Binary64 :=
  let negative := bits >>> 63 = 1
  let exponent := ((bits >>> 52) &&& 0x7ff).toNat
  let mantissa := (bits &&& 0xfffffffffffff).toNat
  if exponent = 0x7ff then
    if mantissa = 0 then .infinite negative else .notANumber
  else if exponent = 0 then .finite negative mantissa (-1074)
  else .finite negative (0x10000000000000 + mantissa) (exponent - 1075)

def ofFloat (x : Float) : Binary64 := ofBits x.toBits

end Binary64

end DeltaMesh
