import DeltaMesh.Decimal.Notation
import DeltaMesh.Text.Literal

/-!
# What is wrong with a JSON text

A text may end too early, be no JSON, or hold something else than its reader asks for. Only the
last is told in words.

These are the faults of the reader behind the program's `from_json`.
-/

namespace DeltaMesh.Json

/-- What stands where something else is wanted. -/
inductive Found
  | integer (n : Int)
  | float (x : Float)
  | text (s : String)
  | boolean (b : Bool)
  | null
  | sequence
  | map

def Found.describe : Found → String
  | integer n => "integer `" ++ toString n ++ "`"
  | float x => "floating point `" ++ pointText x ++ "`"
  | text s => "string " ++ Text.literal s
  | boolean b => "boolean `" ++ (if b then "true" else "false") ++ "`"
  | null => "null"
  | sequence => "sequence"
  | map => "map"

/-- Why a reader does not take what it finds. -/
inductive Refusal
  /-- It is of another type. -/
  | badType (found : Found) (wanted : String)
  /-- It is of the right type, but has no place there. -/
  | badValue (found : Found) (wanted : String)
  /-- It is a list of the wrong length. -/
  | badLength (count : Nat) (wanted : String)
  | missingField (name : String)
  | duplicateField (name : String)
  /-- A text has not the form wanted. -/
  | badForm (reason : String)

def Refusal.message : Refusal → String
  | badType found wanted => "invalid type: " ++ found.describe ++ ", expected " ++ wanted
  | badValue found wanted => "invalid value: " ++ found.describe ++ ", expected " ++ wanted
  | badLength count wanted => "invalid length " ++ toString count ++ ", expected " ++ wanted
  | missingField name => "missing field `" ++ name ++ "`"
  | duplicateField name => "duplicate field `" ++ name ++ "`"
  | badForm reason => reason

/-- The first thing that is wrong with a text. -/
inductive Fault
  /-- The text ends within something. -/
  | unfinished
  /-- The text is no JSON. -/
  | malformed
  | refused (why : Refusal)

end DeltaMesh.Json
