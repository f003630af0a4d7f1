import DeltaMesh.Store.Basic
import DeltaMesh.Wire.Field

/-!
# Stores on disk

A `PersistentStore` writes every value through to a directory: first to a temporary file, which is
then renamed to the file that belongs to the key. Only when that has worked does the value appear
in memory. Opening a store reads every entry file and clears leftover temporary files away;
other files are left alone.

The program's `with_persistence`, `load_persisted`, `entry_path`, `persist_entry`, and `put` with a
directory.
-/

namespace DeltaMesh

open Wire

/-- Values in memory that are also in files. -/
structure PersistentStore where
  entries : Entries
  /-- How many writes were tried; numbers the temporary files. -/
  tried : Nat

namespace PersistentStore

/-- The file of a key. -/
def entryName (k : Key) : String :=
  k.location.toHex ++ "-" ++ k.domain.toHex ++ "-" ++ k.content.toHex ++ ".entry"

/-- The temporary file of write number `n`. -/
def temporaryName (k : Key) (n : Nat) : String :=
  k.content.toHex ++ "." ++ toString n ++ ".tmp"

/-- What an entry file holds. -/
def fileContent (k : Key) (value : ByteArray) : ByteArray := putKey k ++ putBytes value

/-- Reads an entry file. -/
def readEntryFile (content : ByteArray) : Except Fault (Key × ByteArray) :=
  Reader.decode (do return (← Reader.key, ← Reader.bytes)) content

/-- Puts the file of a value into place. A temporary file that could not be renamed is removed. -/
def writeFile (d : Disk) (k : Key) (value : ByteArray) (n : Nat) : Except IoFault Unit × Disk :=
  let temporary := temporaryName k n
  match d.write temporary (fileContent k value) with
  | .error why => (.error why, d)
  | .ok written =>
    match written.rename temporary (entryName k) with
    | .ok renamed => (.ok (), renamed)
    | .error why => (.error why, (written.remove temporary).toOption.getD written)

/-- Stores a value on disk and then in memory. -/
def put (s : PersistentStore) (d : Disk) (k : Key) (value : ByteArray) :
    Except StorageError Unit × PersistentStore × Disk :=
  match writeFile d k value s.tried with
  | (.ok (), d) => (.ok (), ⟨s.entries.insert k value, s.tried + 1⟩, d)
  | (.error why, d) => (.error (.io why), { s with tried := s.tried + 1 }, d)

/-- Takes one file of the directory into account. -/
def loadFile (d : Disk) (entries : Entries) (name : String) :
    Except StorageError (Entries × Disk) :=
  match Disk.extension? name with
  | some "entry" =>
    match d.read name with
    | .error why => .error (.io why)
    | .ok content =>
      match readEntryFile content with
      | .error why => .error (.corrupt name why.message)
      | .ok (k, value) => .ok (entries.insert k value, d)
  | some "tmp" => .ok (entries, (d.remove name).toOption.getD d)
  | _ => .ok (entries, d)

/-- Takes the named files into account, one after the other. The directory is returned also when
a file is refused. -/
def loadFiles (d : Disk) (entries : Entries) :
    List String → Except StorageError Entries × Disk
  | [] => (.ok entries, d)
  | name :: rest =>
    match loadFile d entries name with
    | .ok (entries, d) => loadFiles d entries rest
    | .error why => (.error why, d)

/-- Opens a store on a directory, which is created if it is missing. -/
def open? (d : Disk) : Except StorageError PersistentStore × Disk :=
  let d := d.ensure
  match d.names with
  | .error why => (.error (.io why), d)
  | .ok names =>
    let (loaded, d) := loadFiles d ∅ names
    (loaded.map fun entries => ⟨entries, 0⟩, d)

end PersistentStore

end DeltaMesh
