import DeltaMesh.Decimal.Fixed
import DeltaMesh.Ident.Key
import Std.Data.ExtTreeMap

/-!
# Stored values

`Entries` maps keys to values, in key order. Since keys are ordered by location first, the values
under one location are neighbours: `Entries.under` lists them and `Entries.locations` names every
location that has one.

The map in the program's `MemoryStorage`, with `values_under`, `locations`, `stats`, and the text
of `StorageStats`.
-/

namespace DeltaMesh

/-- Values by key, in key order. -/
abbrev Entries := Std.ExtTreeMap Key ByteArray compare

namespace Entries

/-- The values entered from left to right: of two under one key the later one stays. -/
def ofPairs (pairs : List (Key × ByteArray)) : Entries :=
  pairs.foldl (fun e p => e.insert p.1 p.2) ∅

/-- The total length of the values. -/
def totalBytes (e : Entries) : Nat := e.foldl (fun n _ v => n + v.size) 0

/-- The values under a location, in key order. -/
def under (e : Entries) (location : Id) : List (Key × ByteArray) :=
  e.foldr (fun k v rest => if k.location = location then (k, v) :: rest else rest) []

/-- The locations with at least one value, in ascending order. -/
def locations (e : Entries) : List Id :=
  e.foldr (fun k _ rest => if rest.head? = some k.location then rest else k.location :: rest) []

/-- How much is stored. -/
structure Census where
  entries : Nat
  locations : Nat
  bytes : Nat
  deriving DecidableEq, Repr

/-- Counts values, locations and bytes. -/
def census (e : Entries) : Census := ⟨e.size, e.locations.length, e.totalBytes⟩

def Census.toText (c : Census) : String :=
  "Storage: " ++ toString c.entries ++ " values under " ++ toString c.locations ++
    " locations, " ++ fixedText 2 (c.bytes.toUInt64.toFloat / 1024) ++ "KB"

end Entries

end DeltaMesh
