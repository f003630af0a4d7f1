import DeltaMesh.Store.Disk
import DeltaMesh.Store.Entries

/-!
# Stores

A `Store` holds values in memory. Writing may fail: `fault` says, for the number of writes tried
so far and the value to be written, whether this one does. A failed write changes no value.

The program's `MemoryStorage` without a directory, with `get` and `put`, and any other `Storage`
whose `put` may fail; the texts of `StorageError`.
-/

namespace DeltaMesh

/-- Why a value could not be stored or loaded. -/
inductive StorageError
  | io (why : IoFault)
  /-- The file `name` holds no entry. -/
  | corrupt (name reason : String)
  deriving DecidableEq

def StorageError.message : StorageError → String
  | .io why => "IO error: " ++ why.message
  | .corrupt name reason => "Persisted entry " ++ name ++ " is corrupt: " ++ reason

/-- Which writes fail. -/
abbrev WriteFault := (tried : Nat) → Key → ByteArray → Option StorageError

/-- Values in memory. -/
structure Store where
  entries : Entries
  /-- How many writes were tried. -/
  tried : Nat
  fault : WriteFault

namespace Store

/-- An empty store whose writes never fail. -/
def empty : Store := ⟨∅, 0, fun _ _ _ => none⟩

/-- An empty store in which no value can be written under `location`. -/
def brokenAt (location : Id) (why : StorageError) : Store :=
  ⟨∅, 0, fun _ key _ => if key.location = location then some why else none⟩

def get? (s : Store) (key : Key) : Option ByteArray := s.entries[key]?

/-- Stores `value` under `key` and replaces the value there, unless the write fails. -/
def put (s : Store) (key : Key) (value : ByteArray) : Except StorageError Unit × Store :=
  match s.fault s.tried key value with
  | some why => (.error why, { s with tried := s.tried + 1 })
  | none => (.ok (), { s with entries := s.entries.insert key value, tried := s.tried + 1 })

end Store

end DeltaMesh
