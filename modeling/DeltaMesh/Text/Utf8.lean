/-!
# Where a row of bytes stops being UTF-8

`Utf8.fault?` finds the first place at which a row of bytes can no longer be the beginning of a
UTF-8 text: how many bytes before it are well formed, and how many bytes from there on belong to
the longest beginning of a character. If the row ends inside such a beginning, the text is merely
incomplete. `walk` looks at each byte once and keeps what has to follow it.

The reader behind `decode_frame` says like this why a text in a frame is none.
-/

namespace DeltaMesh.Utf8

/-- The first ill-formed place of a row of bytes. -/
inductive Fault
  /-- From `index` on, `length` bytes begin no character. -/
  | invalid (index length : Nat)
  /-- The character that begins at `index` is cut off by the end. -/
  | incomplete (index : Nat)
  deriving DecidableEq, Repr

def Fault.message : Fault → String
  | .invalid index length =>
    "invalid utf-8 sequence of " ++ toString length ++ " bytes from index " ++ toString index
  | .incomplete index => "incomplete utf-8 byte sequence from index " ++ toString index

/-- What has to follow for a character to be complete: a byte between `low` and `high`, and then
`more` bytes that may be any continuation bytes. -/
structure Tail where
  low : UInt8
  high : UInt8
  more : Nat

/-- What follows a leading byte that is not ASCII. The second byte is bounded more tightly where
a longer form, a surrogate or a number beyond the last code point would arise. -/
def tail? (lead : UInt8) : Option Tail :=
  if 0xC2 ≤ lead ∧ lead ≤ 0xDF then some ⟨0x80, 0xBF, 0⟩
  else if lead = 0xE0 then some ⟨0xA0, 0xBF, 1⟩
  else if lead = 0xED then some ⟨0x80, 0x9F, 1⟩
  else if 0xE1 ≤ lead ∧ lead ≤ 0xEF then some ⟨0x80, 0xBF, 1⟩
  else if lead = 0xF0 then some ⟨0x90, 0xBF, 2⟩
  else if 0xF1 ≤ lead ∧ lead ≤ 0xF3 then some ⟨0x80, 0xBF, 2⟩
  else if lead = 0xF4 then some ⟨0x80, 0x8F, 2⟩
  else none

/-- What has to follow after one more byte of a character; nothing if it is complete. -/
def Tail.next? (t : Tail) : Option Tail :=
  match t.more with
  | 0 => none
  | more + 1 => some ⟨0x80, 0xBF, more⟩

/-- Walks over the bytes from `index` on. A character may have begun at an earlier index; `open?`
tells where, and what has to follow. -/
def walk (index : Nat) : (open? : Option (Nat × Tail)) → List UInt8 → Option Fault
  | none, [] => none
  | some (start, _), [] => some (.incomplete start)
  | none, lead :: rest =>
    if lead < 0x80 then walk (index + 1) none rest
    else
      match tail? lead with
      | none => some (.invalid index 1)
      | some t => walk (index + 1) (some (index, t)) rest
  | some (start, t), b :: rest =>
    if t.low ≤ b ∧ b ≤ t.high then walk (index + 1) (t.next?.map fun t => (start, t)) rest
    else some (.invalid start (index - start))

/-- The first ill-formed place of `bytes`, if there is one. -/
def fault? (bytes : List UInt8) : Option Fault := walk 0 none bytes

end DeltaMesh.Utf8
