/-!
# Socket addresses

An address of a host and a port in its usual text: four decimal octets or eight groups of up to
four hexadecimal digits in brackets, a colon and the port. In the longer form one run of zero
groups may be written `::`, the last two groups may be written as octets, and a numeric scope may
follow behind a percent sign. `SocketAddress.parse?` reads a whole text, `SocketAddress.toText`
writes the canonical one.

The `from_str` of `PeerAddress` reads the part behind the at sign like this.
-/

namespace DeltaMesh

/-- A host and a port. -/
inductive SocketAddress
  | v4 (octets : List UInt8) (port : UInt16)
  | v6 (groups : List UInt16) (scope : UInt32) (port : UInt16)
  deriving DecidableEq, Inhabited

namespace SocketAddress

/-! ### Reading -/

/-- The value of a digit in base ten or sixteen. -/
def digitValue? (base : Nat) (c : Char) : Option Nat :=
  let n :=
    if '0' ≤ c ∧ c ≤ '9' then c.toNat - 48
    else if 'a' ≤ c ∧ c ≤ 'f' then c.toNat - 87
    else if 'A' ≤ c ∧ c ≤ 'F' then c.toNat - 55
    else base
  if n < base then some n else none

/-- Larger than every number in an address. -/
def tooLarge : Nat := 0x100000000

/-- The number of the digits at the beginning of a text, and how many there are. Numbers that are
too large are not told apart. -/
def digits (base : Nat) : (value count : Nat) → List Char → Nat × Nat × List Char
  | value, count, [] => (value, count, [])
  | value, count, c :: rest =>
    match digitValue? base c with
    | some d => digits base (min (value * base + d) tooLarge) (count + 1) rest
    | none => (value, count, c :: rest)

/-- A decimal octet: up to three digits, without leading zeros. -/
def octet? (s : List Char) : Option (UInt8 × List Char) :=
  let (value, count, rest) := digits 10 0 0 s
  if count = 0 ∨ 3 < count ∨ 255 < value then none
  else if s.head? = some '0' ∧ 1 < count then none
  else some (value.toUInt8, rest)

/-- A group: up to four hexadecimal digits. -/
def group? (s : List Char) : Option (UInt16 × List Char) :=
  let (value, count, rest) := digits 16 0 0 s
  if count = 0 ∨ 4 < count then none else some (value.toUInt16, rest)

/-- A decimal number of any number of digits that is at most `limit`. -/
def number? (limit : Nat) (s : List Char) : Option (Nat × List Char) :=
  let (value, count, rest) := digits 10 0 0 s
  if count = 0 ∨ limit < value then none else some (value, rest)

/-- The character `c`. -/
def char? (c : Char) : List Char → Option (List Char)
  | [] => none
  | d :: rest => if d = c then some rest else none

/-- Four octets with points between them. -/
def octets? (s : List Char) : Option (List UInt8 × List Char) := do
  let (a, s) ← octet? s
  let s ← char? '.' s
  let (b, s) ← octet? s
  let s ← char? '.' s
  let (c, s) ← octet? s
  let s ← char? '.' s
  let (d, s) ← octet? s
  return ([a, b, c, d], s)

/-- Skips the colon in front of every group but the first. -/
def separator? (first : Bool) (s : List Char) : Option (List Char) :=
  if first then some s else char? ':' s

/-- The groups of four octets. -/
def octetGroups : List UInt8 → List UInt16
  | a :: b :: rest => (a.toUInt16 * 256 + b.toUInt16) :: octetGroups rest
  | _ => []

/-- Up to `room` groups, as far as they go; octets may stand in place of the last two, and the
flag tells whether they do. -/
def groups (first : Bool) : (room : Nat) → List Char → List UInt16 × Bool × List Char
  | 0, s => ([], false, s)
  | room + 1, s =>
    let embedded :=
      if room = 0 then none
      else (separator? first s).bind octets?
    match embedded with
    | some (os, rest) => (octetGroups os, true, rest)
    | none =>
      match (separator? first s).bind group? with
      | some (g, rest) =>
        let (gs, octets, rest) := groups false room rest
        (g :: gs, octets, rest)
      | none => ([], false, s)

/-- Eight groups, or fewer around a `::` that stands for at least one group of zero. -/
def eightGroups? (s : List Char) : Option (List UInt16 × List Char) := do
  let (head, octets, s) := groups true 8 s
  if head.length = 8 then return (head, s)
  if octets then none
  let s ← char? ':' s
  let s ← char? ':' s
  let (tail, _, s) := groups true (7 - head.length) s
  return (head ++ List.replicate (8 - head.length - tail.length) 0 ++ tail, s)

def port? (s : List Char) : Option (UInt16 × List Char) := do
  let s ← char? ':' s
  let (n, s) ← number? 65535 s
  return (n.toUInt16, s)

def v4? (s : List Char) : Option (SocketAddress × List Char) := do
  let (os, s) ← octets? s
  let (port, s) ← port? s
  return (.v4 os port, s)

/-- The scope behind a percent sign; without one the scope is zero. -/
def scope (s : List Char) : UInt32 × List Char :=
  match (char? '%' s).bind (number? 4294967295) with
  | some (n, rest) => (n.toUInt32, rest)
  | none => (0, s)

def v6? (s : List Char) : Option (SocketAddress × List Char) := do
  let s ← char? '[' s
  let (gs, s) ← eightGroups? s
  let (scope, s) := scope s
  let s ← char? ']' s
  let (port, s) ← port? s
  return (.v6 gs scope port, s)

/-- The address that a whole text denotes. -/
def parse? (text : String) : Option SocketAddress :=
  match (v4? text.toList).or (v6? text.toList) with
  | some (a, []) => some a
  | _ => none

/-- What is said of a text that is no address. -/
def syntaxFault : String := "invalid socket address syntax"

/-! ### Writing -/

def octetsText (os : List UInt8) : String :=
  ".".intercalate (os.map fun o => toString o.toNat)

def groupText (g : UInt16) : String := String.ofList (Nat.toDigits 16 g.toNat)

def groupsText (gs : List UInt16) : String := ":".intercalate (gs.map groupText)

/-- The length of the run of zeros at the beginning. -/
def zeroRun (gs : List UInt16) : Nat := (gs.takeWhile (· = 0)).length

/-- Start and length of the first longest run of zero groups, if it has at least two. -/
def longestZeros (gs : List UInt16) : Option (Nat × Nat) :=
  let runs := (List.range gs.length).map fun i => (i, zeroRun (gs.drop i))
  runs.foldl (fun best run =>
    match best with
    | none => if 2 ≤ run.2 then some run else none
    | some b => if b.2 < run.2 then some run else some b) none

/-- The octets of an address of the short form that is embedded in the long one. -/
def mappedOctets? : List UInt16 → Option (List UInt8)
  | [0, 0, 0, 0, 0, 0xffff, a, b] =>
    some [(a >>> 8).toUInt8, a.toUInt8, (b >>> 8).toUInt8, b.toUInt8]
  | _ => none

/-- Eight groups, the first longest run of zeros compressed. -/
def longText (gs : List UInt16) : String :=
  match mappedOctets? gs with
  | some os => "::ffff:" ++ octetsText os
  | none =>
    match longestZeros gs with
    | some (start, length) =>
      groupsText (gs.take start) ++ "::" ++ groupsText (gs.drop (start + length))
    | none => groupsText gs

def toText : SocketAddress → String
  | .v4 os port => octetsText os ++ ":" ++ toString port.toNat
  | .v6 gs scope port =>
    "[" ++ longText gs ++ (if scope = 0 then "" else "%" ++ toString scope.toNat) ++ "]:" ++
      toString port.toNat

end SocketAddress

end DeltaMesh
