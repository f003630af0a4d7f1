/-!
# Base-256 digits

A natural number written with a fixed count of bytes, least significant byte first
(`leDigits`) or last (`beDigits`), and the value that a row of bytes denotes (`ofLE`, `ofBE`).

Main statements: writing has the asked length, and reading what was written gives the number
back modulo `256 ^ width` (`ofLE_leDigits`, `ofBE_beDigits`).

The serializer behind `encode_frame` and `encode_payload` writes numbers like this, and an `Id160`
is read from its bytes like this.
-/

namespace DeltaMesh

/-- The `width` low base-256 digits of `n`, least significant first. -/
def leDigits : (width n : Nat) → List UInt8
  | 0, _ => []
  | width + 1, n => n.toUInt8 :: leDigits width (n / 256)

/-- The number whose base-256 digits, least significant first, are `ds`. -/
def ofLE (ds : List UInt8) : Nat :=
  ds.foldr (fun d n => d.toNat + 256 * n) 0

/-- The `width` low base-256 digits of `n`, most significant first. -/
def beDigits (width n : Nat) : List UInt8 :=
  (leDigits width n).reverse

/-- The number whose base-256 digits, most significant first, are `ds`. -/
def ofBE (ds : List UInt8) : Nat :=
  ofLE ds.reverse

@[simp] theorem length_leDigits (width n : Nat) : (leDigits width n).length = width := by
  induction width generalizing n with
  | zero => rfl
  | succ width ih => simp [leDigits, ih]

@[simp] theorem length_beDigits (width n : Nat) : (beDigits width n).length = width := by
  simp [beDigits]

@[simp] theorem ofLE_nil : ofLE [] = 0 := rfl

@[simp] theorem ofLE_cons (d : UInt8) (ds : List UInt8) :
    ofLE (d :: ds) = d.toNat + 256 * ofLE ds := rfl

/-- A row of `k` bytes denotes a number below `256 ^ k`. -/
theorem ofLE_lt (ds : List UInt8) : ofLE ds < Nat.pow 256 ds.length := by
  induction ds with
  | nil => decide
  | cons d ds ih =>
    have hd := d.toNat_lt
    have hp : Nat.pow 256 (ds.length + 1) = Nat.pow 256 ds.length * 256 := rfl
    rw [ofLE_cons, List.length_cons, hp]
    omega

theorem ofLE_leDigits (width n : Nat) : ofLE (leDigits width n) = n % Nat.pow 256 width := by
  induction width generalizing n with
  | zero => simp [leDigits, Nat.mod_one]
  | succ width ih =>
    have hp : Nat.pow 256 (width + 1) = 256 * Nat.pow 256 width := Nat.mul_comm ..
    rw [leDigits, ofLE_cons, ih, hp, Nat.mod_mul]
    simp

/-- A row of bytes is the digit row of its value. -/
theorem leDigits_ofLE (ds : List UInt8) : leDigits ds.length (ofLE ds) = ds := by
  induction ds with
  | nil => rfl
  | cons d ds ih =>
    have hd := d.toNat_lt
    have hq : (d.toNat + 256 * ofLE ds) / 256 = ofLE ds := by omega
    rw [List.length_cons, leDigits, ofLE_cons, hq, ih]
    congr 1
    apply UInt8.toNat_inj.mp
    simp only [Nat.toUInt8, UInt8.toNat_ofNat']
    omega

theorem ofBE_lt (ds : List UInt8) : ofBE ds < Nat.pow 256 ds.length := by
  simpa [ofBE] using ofLE_lt ds.reverse

theorem ofBE_beDigits (width n : Nat) : ofBE (beDigits width n) = n % Nat.pow 256 width := by
  simp [ofBE, beDigits, ofLE_leDigits]

theorem beDigits_ofBE (ds : List UInt8) : beDigits ds.length (ofBE ds) = ds := by
  have h := leDigits_ofLE ds.reverse
  rw [List.length_reverse] at h
  rw [beDigits, ofBE, h, List.reverse_reverse]

end DeltaMesh
