import DeltaMesh.Store.Disk

/-!
# Paths in a directory

A path, as a text, is a row of names with slashes between them. Empty names and single points stand
for the folder that they are in, so that many texts lead to one place. `Disk.locate` follows a text
to the path of the place in the `Disk`, and `Disk.makeFolders` creates the folders on its way.

The path that the program's `with_persistence` is given is followed like this.
-/

namespace DeltaMesh

namespace Path

/-- The names in a text that lead from one place to another. -/
def names (text : String) : List String :=
  (text.splitOn "/").filter fun name => name ≠ "" && name ≠ "."

/-- Whether a text can only mean a folder, by the way it ends. -/
def endsInFolder (text : String) : Bool :=
  match text.toList.reverse with
  | [] | '/' :: _ | ['.'] | '.' :: '/' :: _ => true
  | _ => false

/-- The path of what is called `name` in the folder at `path`. -/
def below (path name : String) : Except IoFault String :=
  if 255 < name.utf8ByteSize then .error .nameTooLong
  else .ok (if path.isEmpty then name else path ++ "/" ++ name)

/-- Refuses a text that cannot be a path. -/
def check (text : String) : Except IoFault Unit :=
  if text.contains '\x00' then .error (.other "file name contained an unexpected NUL byte")
  else .ok ()

end Path

namespace Disk

/-- Follows names from the folder at `path` on. Each but the last leads to a folder, and the last
too if `toFolder`. -/
def follow (d : Disk) (toFolder : Bool) (path : String) : List String → Except IoFault String
  | [] => .ok path
  | name :: rest => do
    let next ← Path.below path name
    if toFolder || !rest.isEmpty then
      match d.node? next with
      | some .folder => pure ()
      | some (.file _) => throw .notFolder
      | none => throw .notFound
    follow d toFolder next rest

/-- The path that a text leads to. -/
def locate (d : Disk) (text : String) : Except IoFault String := do
  Path.check text
  if d.nodes.isNone then throw .notFound
  d.follow (Path.endsInFolder text) "" (Path.names text)

/-- Creates the folders with these names, one in the other, that are missing below `path`. -/
def makeFoldersBelow (d : Disk) (path : String) : List String → Except IoFault Disk
  | [] => .ok d
  | name :: rest => do
    let next ← Path.below path name
    match d.node? next with
    | some .folder => makeFoldersBelow d next rest
    | some (.file _) => throw (if rest.isEmpty then .alreadyExists else .notFolder)
    | none => makeFoldersBelow (d.put next .folder) next rest

/-- Creates the folder that a text leads to, with all folders on the way; the directory is created
too if it is missing. -/
def makeFolders (d : Disk) (text : String) : Except IoFault Disk := do
  Path.check text
  d.ensure.makeFoldersBelow "" (Path.names text)

end Disk

end DeltaMesh
