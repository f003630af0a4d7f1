import Std.Data.ExtTreeMap

/-!
# A directory of files

`Disk` is the directory that a store keeps its files in: a map from paths to files and folders,
or nothing once the directory itself is gone. Writing replaces a file, renaming replaces the
target at once, and each operation either succeeds or names the fault of the file system. Paths
are taken to lead through folders; `Disk.locate` follows a path that may not.

It stands for the directory that `with_persistence` is given.
-/

namespace DeltaMesh

/-- What the file system answers instead of doing its work. -/
inductive IoFault
  | notFound
  | alreadyExists
  | notFolder
  | isFolder
  | nameTooLong
  /-- A fault with a text of its own. -/
  | other (text : String)
  deriving DecidableEq, Repr

def IoFault.message : IoFault → String
  | notFound => "No such file or directory (os error 2)"
  | alreadyExists => "File exists (os error 17)"
  | notFolder => "Not a directory (os error 20)"
  | isFolder => "Is a directory (os error 21)"
  | nameTooLong => "File name too long (os error 36)"
  | other text => text

/-- What stands at a path. -/
inductive Node
  | file (content : ByteArray)
  | folder

/-- The nodes of a directory by path, or nothing if there is no directory. -/
structure Disk where
  nodes : Option (Std.ExtTreeMap String Node compare)

namespace Disk

/-- An existing directory without files. -/
def fresh : Disk := ⟨some ∅⟩

/-- No directory. -/
def absent : Disk := ⟨none⟩

/-- What stands at `path`; the empty path is the directory itself. -/
def node? (d : Disk) (path : String) : Option Node :=
  d.nodes.bind fun nodes => if path.isEmpty then some .folder else nodes[path]?

/-- Whether there is a folder at `path`. -/
def isFolder (d : Disk) (path : String) : Bool := d.node? path matches some .folder

/-- The directory with `node` at `path`. -/
def put (d : Disk) (path : String) (node : Node) : Disk :=
  ⟨d.nodes.map (·.insert path node)⟩

/-- The directory without what stood at `path`. -/
def drop (d : Disk) (path : String) : Disk :=
  ⟨d.nodes.map (·.erase path)⟩

/-- Creates the directory if it is missing. -/
def ensure (d : Disk) : Disk := ⟨some (d.nodes.getD ∅)⟩

/-- Reads a file. -/
def read (d : Disk) (path : String) : Except IoFault ByteArray :=
  match d.node? path with
  | some (.file content) => .ok content
  | some .folder => .error .isFolder
  | none => .error .notFound

/-- Writes a file, if there is a directory and no folder in the way. -/
def write (d : Disk) (path : String) (content : ByteArray) : Except IoFault Disk :=
  if d.nodes.isNone then .error .notFound
  else if d.isFolder path then .error .isFolder
  else .ok (d.put path (.file content))

/-- Removes a file. -/
def remove (d : Disk) (path : String) : Except IoFault Disk := do
  discard <| d.read path
  return d.drop path

/-- Moves a file to another path and replaces the file there. -/
def rename (d : Disk) (source target : String) : Except IoFault Disk := do
  let content ← d.read source
  if d.isFolder target then throw .isFolder
  return (d.drop source).put target (.file content)

/-- Removes the directory with everything in it. -/
def removeAll (d : Disk) : Except IoFault Disk :=
  if d.nodes.isSome then .ok absent else .error .notFound

/-- The names in the directory, in ascending order. -/
def names (d : Disk) : Except IoFault (List String) :=
  match d.nodes with
  | none => .error .notFound
  | some nodes => .ok (nodes.keys.filter fun path => !path.toList.contains '/')

/-- What follows the last point of a name; a point at the beginning does not count. -/
def extension? (name : String) : Option String :=
  match name.toList.reverse.dropWhile (· ≠ '.') with
  | [] | [_] => none
  | _ => some (String.ofList (name.toList.reverse.takeWhile (· ≠ '.')).reverse)

end Disk

end DeltaMesh
