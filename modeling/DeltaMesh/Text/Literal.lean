import DeltaMesh.Text.Invisible

/-!
# Characters and texts between quotes

How a diagnostic shows a character or a text: visible characters stand for themselves, the quote
around them and the backslash are escaped, and everything that would not be visible is written as
its code point.

The texts that `from_hex` and `from_json` refuse are quoted like this in their errors.
-/

namespace DeltaMesh.Text

/-- The hexadecimal digits of a code point, without leading zeros. -/
def codePointDigits (n : Nat) : String :=
  String.ofList (Nat.toDigits 16 n)

/-- A code point written as an escape. -/
def codePointEscape (n : Nat) : String :=
  "\\u\x7b" ++ codePointDigits n ++ "\x7d"

/-- A character as it is shown between two marks `quote`. -/
def shown (quote c : Char) : String :=
  if c = '\x00' then "\\0"
  else if c = '\t' then "\\t"
  else if c = '\n' then "\\n"
  else if c = '\r' then "\\r"
  else if c = '\\' then "\\\\"
  else if c = quote then String.ofList ['\\', quote]
  else if isInvisible c then codePointEscape c.toNat
  else c.toString

/-- A byte, read as a Latin-1 character, between single quotes. -/
def latin1Literal (b : UInt8) : String :=
  "'" ++ shown '\'' (Char.ofNat b.toNat) ++ "'"

/-- A text between double quotes. -/
def literal (text : String) : String :=
  "\"" ++ String.join (text.toList.map (shown '\"')) ++ "\""

end DeltaMesh.Text
