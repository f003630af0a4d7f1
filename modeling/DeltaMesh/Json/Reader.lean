import DeltaMesh.Bytes.Cursor
import DeltaMesh.Json.Fault

/-!
# Reading JSON from left to right

A `Reader` moves a cursor over a text behind what it asks for and stops at the first thing that is
wrong, so that of several faults the leftmost is reported. Here are the leaves: blanks, words and
strings.

It stands for the reader behind the program's `from_json`.
-/

namespace DeltaMesh.Json

/-- Reads something at the cursor, which stands in a text of bytes, and moves it behind. -/
abbrev Reader := StateT Cursor (Except Fault)

namespace Reader

/-- Whether a byte may stand between the parts of a text. -/
def isBlank (b : UInt8) : Bool := b = 0x20 || b = 0x0a || b = 0x09 || b = 0x0d

/-- Passes over blanks; the answer is the byte after them, which is left in place. -/
def peek : Reader (Option Char) := do
  modify (·.skipWhile isBlank)
  return (← get).head?.map Char.ofUInt8

/-- Passes over blanks; something has to follow them. -/
def next : Reader Char := do
  match ← peek with
  | some c => return c
  | none => throw .unfinished

/-- Passes over one byte. -/
def drop : Reader Unit := modify Cursor.step

/-- Whether the text is used up. -/
def atEnd : Reader Bool := return (← get).head?.isNone

/-- The next byte, which has to be there. -/
def byte : Reader UInt8 := do
  match (← get).head? with
  | some b =>
    drop
    return b
  | none => throw .unfinished

/-- The bytes of a word. -/
def word : List Char → Reader Unit
  | [] => pure ()
  | c :: rest => do
    if Char.ofUInt8 (← byte) = c then word rest else throw .malformed

/-! ### Strings -/

/-- The value of a hexadecimal digit. -/
def hexValue? (b : UInt8) : Option Nat :=
  let n := b.toNat
  if 48 ≤ n ∧ n ≤ 57 then some (n - 48)
  else if 65 ≤ n ∧ n ≤ 70 then some (n - 55)
  else if 97 ≤ n ∧ n ≤ 102 then some (n - 87)
  else none

/-- The number that four hexadecimal digits denote. A text with fewer than four bytes to come is
unfinished whatever they are. -/
def fourDigits : Reader Nat := do
  match (← get).take? 4 with
  | none => throw .unfinished
  | some (digits, behind) =>
    set behind
    match digits.data.toList.mapM hexValue? with
    | some values => return values.foldl (fun n d => 16 * n + d) 0
    | none => throw .malformed

/-- What a backslash and one byte stand for. -/
def escaped? (b : UInt8) : Option Char :=
  match Char.ofUInt8 b with
  | '\"' => some '\"'
  | '\\' => some '\\'
  | '/' => some '/'
  | 'b' => some '\x08'
  | 'f' => some '\x0c'
  | 'n' => some '\n'
  | 'r' => some '\r'
  | 't' => some '\t'
  | _ => none

/-- The character of a surrogate pair whose second half is to come: a backslash, a u and four
digits. -/
def lowSurrogate (high : Nat) : Reader Char := do
  if (← byte) ≠ 0x5c then throw .malformed
  if (← byte) ≠ 0x75 then throw .malformed
  let low ← fourDigits
  if 0xdc00 ≤ low ∧ low ≤ 0xdfff then
    return Char.ofNat ((high - 0xd800) * 0x400 + (low - 0xdc00) + 0x10000)
  else throw .malformed

/-- The character that a backslash, a u and the digits to come stand for. Characters beyond the
basic plane are surrogate pairs; a surrogate alone is refused. -/
def codePoint : Reader Char := do
  let n ← fourDigits
  if 0xdc00 ≤ n ∧ n ≤ 0xdfff then throw .malformed
  else if 0xd800 ≤ n ∧ n ≤ 0xdbff then lowSurrogate n
  else return Char.ofNat n

/-- The character behind a backslash. -/
def escape : Reader Char := do
  let b ← byte
  if b = 0x75 then codePoint
  else
    match escaped? b with
    | some c => return c
    | none => throw .malformed

/-- Passes over what follows a backslash; which character it stands for does not matter. -/
def skipEscape : Reader Unit := do
  let b ← byte
  if b = 0x75 then discard fourDigits
  else if (escaped? b).isNone then throw .malformed

/-- The rest of a string, of which `done` was read. There are more `rounds` than bytes. -/
def stringOnto (done : ByteArray) : (rounds : Nat) → Reader ByteArray
  | 0 => throw .unfinished
  | rounds + 1 => do
    let b ← byte
    if b = 0x22 then return done
    else if b = 0x5c then stringOnto (done ++ (← escape).toString.toUTF8) rounds
    else if b < 0x20 then throw .malformed
    else stringOnto (done.push b) rounds

/-- Passes over the rest of a string. There are more `rounds` than bytes. -/
def skipStringRest : (rounds : Nat) → Reader Unit
  | 0 => throw .unfinished
  | rounds + 1 => do
    let b ← byte
    if b = 0x22 then return
    else if b = 0x5c then
      skipEscape
      skipStringRest rounds
    else if b < 0x20 then throw .malformed
    else skipStringRest rounds

/-- A number of rounds that no reader needs if each round takes a byte. -/
def rounds : Reader Nat := return (← get).room + 1

/-- A string; the quote before it was seen but not passed over. -/
def string : Reader String := do
  drop
  match String.fromUTF8? (← stringOnto .empty (← rounds)) with
  | some text => return text
  | none => throw .malformed

/-- Passes over a string; the quote before it was seen. -/
def skipString : Reader Unit := do
  drop
  skipStringRest (← rounds)

end Reader

end DeltaMesh.Json
