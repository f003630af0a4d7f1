import DeltaMesh.Proofs.Delta.Checksum
import Mathlib.Algebra.BigOperators.Fin

/-!
# A checksum in use

A checksum is started anew with a window and then rolled along the data, one byte at a time, for as
long as the data goes on (`Weak.Use`). Nothing is left in it of what was done before it was started
anew, and after any number of bytes it is what it would be if it were started there.

Its two halves are the sums that it stands for, taken over the natural numbers and then modulo
`2 ^ 16`: words of 32 bits lose no more than that, since `2 ^ 16` divides `2 ^ 32`, however long the
window is.

Main statement: `Weak.slides_exact`.
-/

namespace DeltaMesh.Weak

/-! ### The sums over the natural numbers -/

/-- The sum of the `n` bytes from `i` on. -/
def plainTotal (data : ByteArray) (i n : Nat) : Nat :=
  ∑ j ∈ Finset.range n, (wordAt data (i + j)).toNat

/-- The sum of the `n` bytes from `i` on, each as often as its distance from the window's end. -/
def weightedTotal (data : ByteArray) (i n : Nat) : Nat :=
  ∑ j ∈ Finset.range n, (n - j) * (wordAt data (i + j)).toNat

theorem plainTotal_succ (data : ByteArray) (i n : Nat) :
    plainTotal data i (n + 1) = (wordAt data i).toNat + plainTotal data (i + 1) n := by
  rw [plainTotal, Finset.sum_range_succ', Nat.add_zero, Nat.add_comm]
  refine congrArg _ (Finset.sum_congr rfl fun j _ => ?_)
  rw [show i + (j + 1) = i + 1 + j by omega]

theorem weightedTotal_succ (data : ByteArray) (i n : Nat) :
    weightedTotal data i (n + 1) =
      (n + 1) * (wordAt data i).toNat + weightedTotal data (i + 1) n := by
  rw [weightedTotal, Finset.sum_range_succ', Nat.add_zero, Nat.sub_zero, Nat.add_comm]
  refine congrArg _ (Finset.sum_congr rfl fun j _ => ?_)
  rw [show i + (j + 1) = i + 1 + j by omega, Nat.add_sub_add_right]

theorem plainSum_mod (data : ByteArray) (i n : Nat) :
    (plainSum data i n).toNat % 65536 = plainTotal data i n % 65536 := by
  induction n generalizing i with
  | zero => rfl
  | succ n ih =>
    have hrest := ih (i + 1)
    rw [plainSum, plainTotal_succ, UInt32.toNat_add]
    omega

theorem weightedSum_mod (data : ByteArray) (i n : Nat) :
    (weightedSum data i n).toNat % 65536 = weightedTotal data i n % 65536 := by
  induction n generalizing i with
  | zero => rfl
  | succ n ih =>
    have hrest := ih (i + 1)
    -- the weight is cut to 32 bits before it is multiplied
    have hweight : (n + 1).toUInt32.toNat = (n + 1) % 2 ^ 32 := UInt32.toNat_ofNat'
    have hfirst : ((n + 1).toUInt32 * wordAt data i).toNat % 65536 =
        (n + 1) * (wordAt data i).toNat % 65536 := by
      rw [UInt32.toNat_mul, hweight, Nat.mod_mul_mod, Nat.mod_mod_of_dvd _ (by decide)]
    rw [weightedSum, weightedTotal_succ, UInt32.toNat_add]
    omega

/-! ### The two halves of a checksum -/

theorem toNat_digest (plain weighted : UInt32) (n : Nat) :
    (Weak.mk (plain &&& mask) (weighted &&& mask) n).digest.toNat =
      plain.toNat % 65536 + 65536 * (weighted.toNat % 65536) := by
  have hplain : plain.toNat % 65536 < 2 ^ 16 := Nat.mod_lt _ (by decide)
  have hweighted : weighted.toNat % 65536 < 2 ^ 16 := Nat.mod_lt _ (by decide)
  have hshift : ((weighted &&& mask) <<< (16 : UInt32)).toNat =
      (weighted.toNat % 65536) <<< 16 := by
    rw [UInt32.toNat_shiftLeft, toNat_and_mask]
    refine Nat.mod_eq_of_lt ?_
    show (weighted.toNat % 65536) <<< 16 < 2 ^ 32
    rw [Nat.shiftLeft_eq]
    omega
  -- the halves do not overlap, so that the disjunction is a sum
  rw [digest, UInt32.toNat_or, hshift, toNat_and_mask, Nat.or_comm,
    ← Nat.shiftLeft_add_eq_or_of_lt hplain, Nat.shiftLeft_eq]
  omega

/-- The digest of a window, in terms of its bytes. -/
theorem toNat_digest_ofRange {data : ByteArray} {i n : Nat} (h : i + n ≤ data.size) :
    (ofRange data i (i + n)).digest.toNat =
      plainTotal data i n % 65536 + 65536 * (weightedTotal data i n % 65536) := by
  rw [ofRange_eq h, toNat_digest, plainSum_mod, weightedSum_mod]

/-! ### Sliding over the data -/

/-- What is done with a checksum. -/
inductive Use
  /-- It is started anew with a window. -/
  | restart (window : ByteArray)
  | roll (out into : UInt8)

/-- The checksum after one use. -/
def use (w : Weak) : Use → Weak
  | .restart window => ofWindow window
  | .roll out into => w.roll out into

/-- The checksum after all these uses. -/
def after (w : Weak) (uses : List Use) : Weak := uses.foldl use w

/-- A window of `n` bytes moves on by `k` bytes from the beginning of the data. -/
def slides (data : ByteArray) (n k : Nat) : List Use :=
  (List.range k).map fun i => .roll data[i]! data[i + n]!

theorem slides_succ (data : ByteArray) (n k : Nat) :
    slides data n (k + 1) = slides data n k ++ [.roll data[k]! data[k + n]!] := by
  rw [slides, List.range_succ, List.map_append, List.map_singleton, slides]

theorem after_append (w : Weak) (uses rest : List Use) :
    w.after (uses ++ rest) = (w.after uses).after rest := List.foldl_append

/-- Each slide leaves the checksum of the next window. By induction on the number of slides, with
`roll_ofRange` for one. -/
theorem after_slides {data : ByteArray} {n k : Nat} (h : n + k ≤ data.size) :
    (ofRange data 0 (0 + n)).after (slides data n k) = ofRange data k (k + n) := by
  induction k with
  | zero => rfl
  | succ k ih =>
    have hin : k + n < data.size := by omega
    have hout : k < data.size := by omega
    rw [slides_succ, after_append, ih (by omega), getElem!_pos data k hout,
      getElem!_pos data (k + n) hin]
    exact roll_ofRange hin

/-- Whatever a checksum was used for before: started with the first `n` bytes and rolled along `k`
bytes it is what it would be if it were started with the `n` bytes from there on, and these are the
bytes whose sums it holds. -/
theorem slides_exact (data : ByteArray) (n k : Nat) (h : n + k ≤ data.size) (w w' : Weak) :
    let slid := w.after (.restart (data.extract 0 n) :: slides data n k)
    slid = w'.after [.restart (data.extract k (k + n))] ∧
      slid.length = n ∧
      slid.digest.toNat = (∑ i : Fin n, data[k + i].toNat) % 65536 +
        65536 * ((∑ i : Fin n, (n - i) * data[k + i].toNat) % 65536) := by
  have hfit : k + n ≤ data.size := by omega
  have hstart : w.after [.restart (data.extract 0 n)] = ofRange data 0 (0 + n) := by
    rw [← ofWindow_extract (i := 0) (by omega), Nat.zero_add]
    rfl
  have hslid : w.after (.restart (data.extract 0 n) :: slides data n k) =
      ofRange data k (k + n) := by
    rw [← List.singleton_append, after_append, hstart, after_slides h]
  have hbyte : ∀ i : Fin n, (wordAt data (k + i)).toNat = data[k + i].toNat := by
    intro i
    rw [wordAt_of_lt, UInt8.toNat_toUInt32]
  have hplain : plainTotal data k n = ∑ i : Fin n, data[k + i].toNat := by
    rw [plainTotal, Finset.sum_range]
    exact Finset.sum_congr rfl fun i _ => hbyte i
  have hweighted : weightedTotal data k n = ∑ i : Fin n, (n - i) * data[k + i].toNat := by
    rw [weightedTotal, Finset.sum_range]
    exact Finset.sum_congr rfl fun i _ => congrArg _ (hbyte i)
  dsimp only
  rw [hslid]
  refine ⟨(ofWindow_extract hfit).symm, ?_, ?_⟩
  · rw [ofRange_eq hfit]
  · rw [toNat_digest_ofRange hfit, hplain, hweighted]

/-- A window of three bytes moves on by two; what the checksum was used for before is forgotten. -/
theorem slides_exact_high_bytes :
    let data : ByteArray := ⟨#[200, 255, 7, 254, 90]⟩
    let slid := (Weak.mk 9 9 9).after (.restart (data.extract 0 3) :: slides data 3 2)
    3 + 2 ≤ data.size ∧ slid = empty.after [.restart (data.extract 2 5)] ∧ slid.length = 3 ∧
      slid.digest.toNat = (7 + 254 + 90) + 65536 * (3 * 7 + 2 * 254 + 90) := by
  intro data slid
  obtain ⟨hslid, hlength, hdigest⟩ := slides_exact data 3 2 (by decide) ⟨9, 9, 9⟩ empty
  exact ⟨by decide, hslid, hlength, hdigest.trans (by decide)⟩

end DeltaMesh.Weak
