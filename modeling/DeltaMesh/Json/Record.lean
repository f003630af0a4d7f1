import DeltaMesh.Json.Value

/-!
# Records in JSON

A record is written as a map from field names to values, in any order, or as a list of the values
in the order of the fields. In a map, unknown fields are passed over and a known one must not
occur twice; in a list, fields at the end may be left out, but none may follow the last.

The readers that are derived for the program's settings take records like this.
-/

namespace DeltaMesh.Json

/-- A field: its name, and how its value is put into a record. -/
structure Field (ρ : Type) where
  name : String
  read : ρ → Reader ρ

/-- A field that is set by what `value` reads. -/
def field (name : String) (value : Reader α) (put : ρ → α → ρ) : Field ρ :=
  ⟨name, fun r => put r <$> value⟩

/-- How a record was written: as a map, or as a list of so many values. -/
inductive Form
  | map
  | list (count : Nat)

namespace Reader

/-- Whether another entry follows in a map. A brace that closes the map is left in place. -/
def hasEntry (first : Bool) : Reader Bool := do
  let c ← next
  if c = '\x7d' then return false
  if !first then
    if c ≠ ',' then throw .malformed
    drop
  if (← next) ≠ '\"' then throw .malformed
  return true

/-- Takes a colon off. -/
def colon : Reader Unit := do
  if (← next) = ':' then drop else throw .malformed

/-- The entry of a map with the fields `fields`, of which those called `seen` were read. -/
def entry (fields : List (Field ρ)) (seen : List String) (r : ρ) : Reader (List String × ρ) := do
  let name ← string
  match fields.find? (·.name = name) with
  | none =>
    colon
    skip
    return (seen, r)
  | some f =>
    if seen.contains name then throw (.refused (.duplicateField name))
    colon
    return (name :: seen, ← f.read r)

/-- The entries of a map. There are more `rounds` than bytes, and each entry takes one at
least. -/
def entries (fields : List (Field ρ)) :
    (rounds : Nat) → (first : Bool) → (seen : List String) → ρ → Reader ρ
  | 0, _, _, _ => throw .unfinished
  | rounds + 1, first, seen, r => do
    if ← hasEntry first then
      let (seen, r) ← entry fields seen r
      entries fields rounds false seen r
    else return r

/-- The values of a list, field after field; the answer is the record and how many values there
were. -/
def values : List (Field ρ) → (count : Nat) → ρ → Reader (Nat × ρ)
  | [], count, r => return (count, r)
  | f :: rest, count, r => do
    if ← hasElement (count = 0) then values rest (count + 1) (← f.read r)
    else return (count, r)

/-- A record that begins as `start` and is finished by `finish` once its fields were read. -/
def record (name : String) (fields : List (Field ρ)) (start : ρ)
    (finish : Form → ρ → Except Refusal α) : Reader α := do
  let conclude (form : Form) (r : ρ) : Reader α :=
    match finish form r with
    | .ok a => return a
    | .error why => throw (.refused why)
  match ← next with
  | '[' =>
    drop
    let (count, r) ← values fields 0 start
    let a ← conclude (.list count) r
    closeList
    return a
  | '\x7b' =>
    drop
    let r ← entries fields (← rounds) true [] start
    let a ← conclude .map r
    drop
    return a
  | c => mismatch c ("struct " ++ name)

/-- A record whose fields are all optional. -/
def recordWithDefaults (name : String) (fields : List (Field ρ)) (defaults : ρ) : Reader ρ :=
  record name fields defaults fun _ r => .ok r

/-- Reads a text from beginning to end. -/
def readAll (value : Reader α) (text : ByteArray) : Except Fault α := do
  let (a, c) ← value.run (.start text)
  if (c.skipWhile isBlank).head?.isNone then return a else throw .malformed

end Reader

end DeltaMesh.Json
