import DeltaMesh.Bytes.Digits

/-!
# Hexadecimal text

`Hex.encode` writes two lower-case digits per byte. `Hex.decode` reads the bytes of a text two by
two and accepts both cases; a refusal names the first reason met: an odd count of bytes, else
the first byte that is no digit. Main statement: reading what was written gives the bytes back
(`decode_encode`).

These are the decoder and the encoder behind the program's `from_hex` and `to_hex`.
-/

namespace DeltaMesh.Hex

/-- Why a text is no hexadecimal row. -/
inductive Fault
  /-- The text has an odd number of bytes. -/
  | oddLength
  /-- The byte `byte` at `index` is no hexadecimal digit. -/
  | notDigit (byte : UInt8) (index : Nat)
  deriving DecidableEq, Repr

/-- The lower-case digit of a number below sixteen. -/
def digit (n : UInt8) : UInt8 :=
  if n < 10 then 48 + n else 87 + n

/-- The two digits of each byte, as ASCII bytes. -/
def encodeBytes (bytes : List UInt8) : List UInt8 :=
  bytes.flatMap fun (b : UInt8) => [digit (b >>> 4), digit (b &&& 15)]

/-- The text of a row of ASCII bytes. -/
def asciiText (bytes : List UInt8) : String :=
  String.ofList (bytes.map fun b => Char.ofNat b.toNat)

/-- The hexadecimal text of `bytes`. -/
def encode (bytes : List UInt8) : String :=
  asciiText (encodeBytes bytes)

/-- The number that one digit stands for. -/
def digitValue? (c : UInt8) : Option UInt8 :=
  if 48 ≤ c ∧ c ≤ 57 then some (c - 48)
  else if 97 ≤ c ∧ c ≤ 102 then some (c - 87)
  else if 65 ≤ c ∧ c ≤ 70 then some (c - 55)
  else none

/-- The number of the digit at `index`. -/
def readDigit (c : UInt8) (index : Nat) : Except Fault UInt8 :=
  match digitValue? c with
  | some n => .ok n
  | none => .error (.notDigit c index)

/-- Reads pairs of digits; `index` is the place of the first of them in the whole text. -/
def decodePairs (index : Nat) : List UInt8 → Except Fault (List UInt8)
  | high :: low :: rest => do
    let h ← readDigit high index
    let l ← readDigit low (index + 1)
    let tail ← decodePairs (index + 2) rest
    return (h <<< 4 ||| l) :: tail
  | _ => .ok []

/-- The bytes that a row of digits denotes. -/
def decode (digits : List UInt8) : Except Fault (List UInt8) :=
  if digits.length % 2 = 1 then .error .oddLength else decodePairs 0 digits

set_option maxRecDepth 8000 in
private theorem readDigit_digit : ∀ b : UInt8, ∀ i,
    readDigit (digit (b >>> 4)) i = .ok (b >>> 4) ∧
      readDigit (digit (b &&& 15)) i = .ok (b &&& 15) ∧
        (b >>> 4) <<< 4 ||| (b &&& 15) = b := by
  have key : ∀ n : Fin 256, digitValue? (digit (UInt8.ofNat n >>> 4)) = some (UInt8.ofNat n >>> 4) ∧
      digitValue? (digit (UInt8.ofNat n &&& 15)) = some (UInt8.ofNat n &&& 15) ∧
        (UInt8.ofNat n >>> 4) <<< 4 ||| (UInt8.ofNat n &&& 15) = UInt8.ofNat n := by
    decide +kernel
  intro b i
  have h := key ⟨b.toNat, b.toNat_lt⟩
  simp only [UInt8.ofNat_toNat] at h
  simp [readDigit, h]

theorem decodePairs_encodeBytes (bytes : List UInt8) (i : Nat) :
    decodePairs i (encodeBytes bytes) = .ok bytes := by
  induction bytes generalizing i with
  | nil => rfl
  | cons b bytes ih =>
    obtain ⟨h₁, h₂, h₃⟩ := readDigit_digit b i
    have h₂' := (readDigit_digit b (i + 1)).2.1
    have ih := ih (i + 2)
    rw [encodeBytes] at ih
    simp [encodeBytes, decodePairs, h₁, h₂', h₃, ih, bind, Except.bind, pure, Except.pure]

theorem length_encodeBytes (bytes : List UInt8) :
    (encodeBytes bytes).length = 2 * bytes.length := by
  induction bytes with
  | nil => rfl
  | cons b bytes ih =>
    rw [encodeBytes] at ih ⊢
    simp only [List.flatMap_cons, List.length_append, ih, List.length_cons, List.length_nil]
    omega

theorem decode_encode (bytes : List UInt8) : decode (encodeBytes bytes) = .ok bytes := by
  rw [decode, if_neg (by rw [length_encodeBytes]; omega), decodePairs_encodeBytes]

end DeltaMesh.Hex
