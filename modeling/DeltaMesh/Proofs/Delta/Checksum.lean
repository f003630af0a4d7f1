import DeltaMesh.Delta.Signature

/-!
# Rolling a checksum along

Over a window inside the data the two sums of `Weak.ofRange` are the low halves of a plain sum
`plainSum` and a weighted sum `weightedSum`, both taken modulo `2 ^ 32`. Moving a window on by one
byte, or stretching it by one byte to the left, changes these sums by a fixed rule.

Main statements: a rolled checksum is the checksum of the next window (`roll_ofRange`), a
checksum with a byte put in front is that of the longer window (`pushFront_ofRange`), and the
checksum of a window is the same inside the data and cut out of it (`ofWindow_extract`).
-/

namespace DeltaMesh.Weak

/-- The byte at `i` as a word, or zero behind the end. -/
def wordAt (data : ByteArray) (i : Nat) : UInt32 :=
  if h : i < data.size then data[i].toUInt32 else 0

/-- The sum of the `n` bytes from `i` on. -/
def plainSum (data : ByteArray) (i : Nat) : (n : Nat) → UInt32
  | 0 => 0
  | n + 1 => wordAt data i + plainSum data (i + 1) n

/-- The sum of the `n` bytes from `i` on, the first counted `n` times and the last once. -/
def weightedSum (data : ByteArray) (i : Nat) : (n : Nat) → UInt32
  | 0 => 0
  | n + 1 => (n + 1).toUInt32 * wordAt data i + weightedSum data (i + 1) n

theorem wordAt_of_lt {data : ByteArray} {i : Nat} (h : i < data.size) :
    wordAt data i = data[i].toUInt32 := dif_pos h

/-! ### The sums of a window -/

/-- The loop of `Weak.sums` adds the two sums of the bytes that are left. -/
theorem sums_eq {data : ByteArray} {i n : Nat} (h : i + n ≤ data.size) (plain weighted : UInt32) :
    sums data (i + n) i plain weighted =
      (plain + plainSum data i n, weighted + weightedSum data i n) := by
  induction n generalizing i plain weighted with
  | zero =>
    rw [sums]
    simp [plainSum, weightedSum]
  | succ n ih =>
    have hi : i < i + (n + 1) ∧ i < data.size := by omega
    have hweight : i + (n + 1) - i = n + 1 := by omega
    rw [sums, dif_pos hi, hweight, ← wordAt_of_lt hi.2]
    rw [show i + (n + 1) = i + 1 + n by omega] at h ⊢
    rw [ih h]
    simp only [plainSum, weightedSum, UInt32.add_assoc]

/-- The two sums of a stretch, reduced modulo `2 ^ 16` at the end. Reducing earlier makes no
difference, since sums of words wrap at a multiple of it. -/
theorem ofRange_eq {data : ByteArray} {i n : Nat} (h : i + n ≤ data.size) :
    ofRange data i (i + n) = ⟨plainSum data i n &&& mask, weightedSum data i n &&& mask, n⟩ := by
  simp only [ofRange, sums_eq h, UInt32.zero_add, Nat.add_sub_cancel_left]

theorem plainSum_succ (data : ByteArray) (i n : Nat) :
    plainSum data i (n + 1) = plainSum data i n + wordAt data (i + n) := by
  induction n generalizing i with
  | zero => simp [plainSum]
  | succ n ih =>
    have hi : i + 1 + n = i + (n + 1) := by omega
    rw [plainSum, ih (i + 1), hi, ← UInt32.add_assoc]
    rfl

theorem toUInt32_succ (n : Nat) : (n + 1).toUInt32 = n.toUInt32 + 1 := by
  simp [Nat.toUInt32]

/-- One more byte at the end counts once, and every other byte once more. -/
theorem weightedSum_succ (data : ByteArray) (i n : Nat) :
    weightedSum data i (n + 1) = weightedSum data i n + plainSum data i (n + 1) := by
  induction n generalizing i with
  | zero => simp [plainSum, weightedSum]
  | succ n ih =>
    have hw : weightedSum data i (n + 2) =
        (n + 2).toUInt32 * wordAt data i + weightedSum data (i + 1) (n + 1) := rfl
    have hp : plainSum data i (n + 2) = wordAt data i + plainSum data (i + 1) (n + 1) := rfl
    rw [hw, hp, ih, weightedSum, toUInt32_succ (n + 1)]
    grind

/-! ### Sums of sixteen bits -/

/-- Masking is reducing modulo `2 ^ 16`. -/
theorem toNat_and_mask (x : UInt32) : (x &&& mask).toNat = x.toNat % 65536 := by
  rw [UInt32.toNat_and]
  exact Nat.and_two_pow_sub_one_eq_mod x.toNat 16

/-- Two words look alike under the mask if they are congruent. -/
theorem and_mask_inj {x y : UInt32} :
    x &&& mask = y &&& mask ↔ x.toNat % 65536 = y.toNat % 65536 := by
  rw [← UInt32.toNat_inj, toNat_and_mask, toNat_and_mask]

/-- A summand may be cut to sixteen bits before the sum is. -/
theorem and_mask_add (x y : UInt32) : ((x &&& mask) + y) &&& mask = (x + y) &&& mask := by
  rw [and_mask_inj]
  simp only [UInt32.toNat_add, toNat_and_mask]
  omega

/-- Masking a summand before the sum is masked changes nothing. -/
theorem add_and_mask (x y : UInt32) : (x + (y &&& mask)) &&& mask = (x + y) &&& mask := by
  rw [UInt32.add_comm, and_mask_add, UInt32.add_comm]

/-- Masking before a subtraction changes nothing either, though the subtraction may wrap. -/
theorem and_mask_sub (x y : UInt32) : ((x &&& mask) - y) &&& mask = (x - y) &&& mask := by
  rw [UInt32.sub_eq_add_neg, and_mask_add, ← UInt32.sub_eq_add_neg]

/-! ### Moving and stretching a window -/

/-- A rolled checksum is the checksum of the window one byte ahead: the byte that leaves was counted
once in the plain sum and as often as the window is long in the weighted one. -/
theorem roll_ofRange {data : ByteArray} {i n : Nat} (h : i + n < data.size) :
    (ofRange data i (i + n)).roll data[i] data[i + n] = ofRange data (i + 1) (i + 1 + n) := by
  rw [ofRange_eq (Nat.le_of_lt h), ofRange_eq (by omega)]
  simp only [roll, ← wordAt_of_lt h, ← wordAt_of_lt (Nat.lt_of_le_of_lt (Nat.le_add_right i n) h)]
  have hplain : plainSum data i n - wordAt data i + wordAt data (i + n) =
      plainSum data (i + 1) n := by
    have hlast := plainSum_succ data i n
    have hfirst : plainSum data i (n + 1) = wordAt data i + plainSum data (i + 1) n := rfl
    grind
  have hweighted : weightedSum data i n - n.toUInt32 * wordAt data i + plainSum data (i + 1) n =
      weightedSum data (i + 1) n := by
    have hlast := weightedSum_succ data i n
    have hfirst : weightedSum data i (n + 1) =
        (n + 1).toUInt32 * wordAt data i + weightedSum data (i + 1) n := rfl
    have hsum : plainSum data i (n + 1) = wordAt data i + plainSum data (i + 1) n := rfl
    have hweight := toUInt32_succ n
    grind
  have hplain' : ((plainSum data i n &&& mask) - wordAt data i + wordAt data (i + n)) &&& mask =
      plainSum data (i + 1) n &&& mask := by
    rw [← and_mask_add, and_mask_sub, and_mask_add, hplain]
  rw [hplain', add_and_mask, ← and_mask_add, and_mask_sub, and_mask_add, hweighted]

/-- A byte put in front of a window makes the checksum that of the longer window. This is how the
sums of all suffixes are found in one pass from the end. -/
theorem pushFront_ofRange {data : ByteArray} {i stop : Nat} (h : i < stop)
    (hstop : stop ≤ data.size) :
    (ofRange data (i + 1) stop).pushFront data[i] = ofRange data i stop := by
  obtain ⟨n, rfl⟩ := Nat.exists_eq_add_of_lt h
  have hshort : ofRange data (i + 1) (i + 1 + n) =
      ⟨plainSum data (i + 1) n &&& mask, weightedSum data (i + 1) n &&& mask, n⟩ :=
    ofRange_eq (by omega)
  rw [show i + 1 + n = i + n + 1 by omega] at hshort
  have hlong : ofRange data i (i + n + 1) =
      ⟨plainSum data i (n + 1) &&& mask, weightedSum data i (n + 1) &&& mask, n + 1⟩ :=
    ofRange_eq (i := i) (n := n + 1) hstop
  rw [hshort, hlong]
  simp only [pushFront, ← wordAt_of_lt (show i < data.size by omega), and_mask_add]
  rw [UInt32.add_comm, UInt32.add_comm (weightedSum _ _ _)]
  rfl

theorem ofRange_self {data : ByteArray} {i : Nat} (h : i ≤ data.size) :
    ofRange data i i = empty := by
  have hnone := ofRange_eq (n := 0) h
  rw [Nat.add_zero] at hnone
  simp [hnone, plainSum, weightedSum, empty]

/-! ### Windows cut out of the data -/

/-- The bytes of a stretch are those of the value. -/
theorem wordAt_extract {data : ByteArray} {i n k : Nat} (h : i + n ≤ data.size) (hk : k < n) :
    wordAt (data.extract i (i + n)) k = wordAt data (i + k) := by
  have hsize : k < (data.extract i (i + n)).size := by
    rw [ByteArray.size_extract]
    omega
  rw [wordAt_of_lt hsize, wordAt_of_lt (by omega), ByteArray.getElem_extract]

/-- The sums over a part of a stretch are sums over the value. -/
theorem sums_extract {data : ByteArray} {i n k m : Nat} (h : i + n ≤ data.size)
    (hm : k + m ≤ n) :
    plainSum (data.extract i (i + n)) k m = plainSum data (i + k) m ∧
      weightedSum (data.extract i (i + n)) k m = weightedSum data (i + k) m := by
  induction m generalizing k with
  | zero => exact ⟨rfl, rfl⟩
  | succ m ih =>
    have hword := wordAt_extract (k := k) h (by omega)
    obtain ⟨hplain, hweighted⟩ := ih (k := k + 1) (by omega)
    simp only [plainSum, weightedSum, hword, hplain, hweighted]
    exact ⟨rfl, rfl⟩

/-- A window has the same checksum inside the data and cut out of it. -/
theorem ofWindow_extract {data : ByteArray} {i n : Nat} (h : i + n ≤ data.size) :
    ofWindow (data.extract i (i + n)) = ofRange data i (i + n) := by
  have hsize : (data.extract i (i + n)).size = n := by
    rw [ByteArray.size_extract]
    omega
  have hwindow : ofRange (data.extract i (i + n)) 0 (0 + n) =
      ⟨plainSum (data.extract i (i + n)) 0 n &&& mask,
        weightedSum (data.extract i (i + n)) 0 n &&& mask, n⟩ := ofRange_eq (by omega)
  obtain ⟨hplain, hweighted⟩ := sums_extract (k := 0) (m := n) h (by omega)
  rw [Nat.zero_add, hplain, hweighted] at hwindow
  rw [ofWindow, hsize, hwindow, ofRange_eq h]
  rfl

end DeltaMesh.Weak
