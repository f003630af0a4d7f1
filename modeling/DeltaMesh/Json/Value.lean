import DeltaMesh.Json.Number

/-!
# Values in JSON

Readers for single values, each of which says what it wants in case it finds something else; for
lists; and for values that nobody asks for, which only have to be well formed.

They stand for the reader behind the program's `from_json`.
-/

namespace DeltaMesh.Json

namespace Reader

/-- Whether a number begins with this character. -/
def startsNumber (c : Char) : Bool := c = '-' || c.isDigit

/-- Takes off what stands in the place of something wanted, as far as its kind is told by it, and
refuses it. -/
def mismatch (c : Char) (wanted : String) : Reader α := do
  let refuse (found : Found) : Reader α := throw (.refused (.badType found wanted))
  if startsNumber c then refuse (← number c).found
  else
    match c with
    | 'n' =>
      word "null".toList
      refuse .null
    | 't' =>
      word "true".toList
      refuse (.boolean true)
    | 'f' =>
      word "false".toList
      refuse (.boolean false)
    | '\"' => refuse (.text (← string))
    | '[' => refuse .sequence
    | '\x7b' => refuse .map
    | _ => throw .malformed

/-- A string. -/
def text (wanted : String) : Reader String := do
  let c ← next
  if c = '\"' then string else mismatch c wanted

/-- A string in the form that `parse` accepts. -/
def textOf (wanted : String) (parse : String → Except String α) : Reader α := do
  match parse (← text wanted) with
  | .ok a => return a
  | .error reason => throw (.refused (.badForm reason))

/-- A word of 64 bits. -/
def natural (wanted : String) : Reader Nat := do
  let c ← next
  if startsNumber c then
    match ← number c with
    | .whole n => return n
    | .negative n => throw (.refused (.badValue (.integer (-n)) wanted))
    | .real x => throw (.refused (.badType (.float x) wanted))
  else mismatch c wanted

/-- A floating-point number; a whole number is taken for one. -/
def float (wanted : String) : Reader Float := do
  let c ← next
  if startsNumber c then
    match ← number c with
    | .whole n => return n.toUInt64.toFloat
    | .negative n => return -n.toUInt64.toFloat
    | .real x => return x
  else mismatch c wanted

/-- A truth value. -/
def boolean (wanted : String) : Reader Bool := do
  match ← next with
  | 't' =>
    word "true".toList
    return true
  | 'f' =>
    word "false".toList
    return false
  | c => mismatch c wanted

/-- A value or `null`. -/
def nullable (value : Reader α) : Reader (Option α) := do
  match ← peek with
  | some 'n' =>
    word "null".toList
    return none
  | _ => return some (← value)

/-! ### Lists -/

/-- Whether another element follows in a list, which is `first` or comes after others. A bracket
that closes the list is left in place. -/
def hasElement (first : Bool) : Reader Bool := do
  let c ← next
  if c = ']' then return false
  if first then return true
  if c ≠ ',' then throw .malformed
  drop
  if (← next) = ']' then throw .malformed
  return true

/-- Closes a list of which all elements wanted were read. -/
def closeList : Reader Unit := do
  if (← next) = ']' then drop else throw .malformed

/-- The elements of a list; `done` are those before, latest first. There are more `rounds` than
bytes, and each element takes one at least. -/
def elementsOnto (value : Reader α) : (rounds : Nat) → (done : List α) → Reader (List α)
  | 0, _ => throw .unfinished
  | rounds + 1, done => do
    if ← hasElement done.isEmpty then elementsOnto value rounds ((← value) :: done)
    else return done.reverse

/-- A list of values. -/
def list (wanted : String) (value : Reader α) : Reader (List α) := do
  let c ← next
  if c = '[' then
    drop
    let values ← elementsOnto value (← rounds) []
    closeList
    return values
  else mismatch c wanted

/-! ### Passing over values -/

/-- What is open around a place in a text. -/
inductive Frame
  | list
  | map
  deriving DecidableEq

/-- What has to come next. -/
inductive Need
  /-- A value. -/
  | value
  /-- A key, a colon and a value. -/
  | entry
  /-- A comma or the end of the innermost frame. -/
  | separator

/-- Passes over a key and the colon after it. -/
def skipKey : Reader Unit := do
  if (← next) ≠ '\"' then throw .malformed
  skipString
  if (← next) ≠ ':' then throw .malformed
  drop

/-- What has to come next in a frame that was opened just now; an empty one is closed at once. -/
def afterOpen (frame : Frame) (frames : List Frame) : Reader (Need × List Frame) := do
  drop
  let c ← next
  match frame with
  | .list =>
    if c = ']' then
      drop
      return (.separator, frames)
    else return (.value, frame :: frames)
  | .map =>
    if c = '\x7d' then
      drop
      return (.separator, frames)
    else return (.entry, frame :: frames)

/-- Passes over a value, or over its beginning if it is a list or a map. -/
def skipStart (frames : List Frame) : Reader (Need × List Frame) := do
  let c ← next
  if startsNumber c then
    skipNumber c
    return (.separator, frames)
  match c with
  | 'n' =>
    word "null".toList
    return (.separator, frames)
  | 't' =>
    word "true".toList
    return (.separator, frames)
  | 'f' =>
    word "false".toList
    return (.separator, frames)
  | '\"' =>
    skipString
    return (.separator, frames)
  | '[' => afterOpen .list frames
  | '\x7b' => afterOpen .map frames
  | _ => throw .malformed

/-- Passes over a comma or the end of a frame. -/
def skipSeparator (frame : Frame) (frames : List Frame) : Reader (Need × List Frame) := do
  let c ← next
  match frame with
  | .list =>
    if c = ',' then
      drop
      return (.value, frame :: frames)
    if c = ']' then
      drop
      return (.separator, frames)
  | .map =>
    if c = ',' then
      drop
      return (.entry, frame :: frames)
    if c = '\x7d' then
      drop
      return (.separator, frames)
  throw .malformed

/-- Passes over what is needed until every frame is closed. Each round takes a byte at least. -/
def skipUntilClosed : (rounds : Nat) → Need → List Frame → Reader Unit
  | 0, _, _ => throw .unfinished
  | _, .separator, [] => pure ()
  | rounds + 1, .separator, frame :: frames => do
    let (need, frames) ← skipSeparator frame frames
    skipUntilClosed rounds need frames
  | rounds + 1, .value, frames => do
    let (need, frames) ← skipStart frames
    skipUntilClosed rounds need frames
  | rounds + 1, .entry, frames => do
    skipKey
    skipUntilClosed rounds .value frames

/-- Passes over a value. -/
def skip : Reader Unit := do
  skipUntilClosed ((← rounds) + 1) .value []

end Reader

end DeltaMesh.Json
