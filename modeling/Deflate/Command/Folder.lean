/-
Looking up the input of the command by its path.

* `Folder`: the files in a folder and the folders inside it;
* `FileSystem`: the folder that the command works in and what is known from the
  root on; a path that leads out of the former comes to folders of which nothing
  else is known;
* `FileSystem.open?`: what a path leads to; a folder can be opened but not read,
  no path leads through a file, and names and paths have a greatest length.
-/
import Deflate.Transfer.Collect

namespace Deflate.Command

/-- A folder. -/
structure Folder where
  /-- The files by their paths. -/
  files : List (String × ByteArray)
  /-- The paths of the folders inside. -/
  folders : List String

/-- What a path leads to. -/
inductive Entry where
  | file (content : ByteArray)
  | folder

/-- What reading an entry delivers. -/
def Entry.deliveries : Entry → List Delivery
  | .file content => [.bytes content]
  | .folder => [.fail (.system 21)]

namespace Folder

/-- The names in a path. -/
def names (path : String) : List String :=
  (path.splitOn "/").filter fun name => name ≠ "" ∧ name ≠ "."

/-- What stands at the place with these names. -/
def entry? (f : Folder) (place : List String) : Option Entry :=
  match f.files.find? fun file => names file.1 = place with
  | some file => some (.file file.2)
  | none =>
      if (f.folders ++ f.files.map (·.1)).any fun path => place.isPrefixOf (names path) then
        some .folder
      else if place.isEmpty then some .folder
      else none

end Folder

/-- The folders known. -/
structure FileSystem where
  /-- The folder that the command works in. -/
  current : Folder
  /-- The folder at the root. -/
  root : Folder

/-- Where a path has come to. -/
inductive Place where
  /-- In the folder that the command works in, by the names on the way. -/
  | current (names : List String)
  /-- In the folder at the root, by the names on the way. -/
  | root (names : List String)
  /-- In a folder around the one that the command works in. -/
  | around

namespace Place

/-- The folder around a place; the root is around itself. -/
def parent : Place → Place
  | current [] => around
  | current names => current names.dropLast
  | root names => root names.dropLast
  | around => around

/-- The place with a name inside a place. -/
def child (name : String) : Place → Place
  | current names => current (names ++ [name])
  | root names => root (names ++ [name])
  | around => around

end Place

namespace FileSystem

/-- The greatest number of bytes of a name. -/
def maxName : Nat := 255

/-- The greatest number of bytes of a path. -/
def maxPath : Nat := 4095

/-- What a name leads to from a place. -/
def lookup (s : FileSystem) (place : Place) (name : String) : Except Fault Entry :=
  let found? := match place.child name with
    | .current names => s.current.entry? names
    | .root names => s.root.entry? names
    | .around => none
  if maxName < name.utf8ByteSize then .error (.system 36)
  else match found? with
    | some entry => .ok entry
    | none => .error (.system 2)

/-- What the steps of a path lead to from a place where `here` stands. -/
def walk (s : FileSystem) (place : Place) (here : Entry) :
    List String → Except Fault Entry
  | [] => .ok here
  | step :: steps =>
      match here with
      | .file _ => .error (.system 20)
      | .folder =>
          if step = "" ∨ step = "." then s.walk place .folder steps
          else if step = ".." then s.walk place.parent .folder steps
          else
            match s.lookup place step with
            | .ok next => s.walk (place.child step) next steps
            | .error fault => .error fault

/-- Opens what a path leads to. -/
def open? (s : FileSystem) (path : String) : Except Fault (List Delivery) :=
  let start := if path.startsWith "/" then Place.root [] else Place.current []
  if maxPath < path.utf8ByteSize then .error (.system 36)
  else match s.walk start .folder (path.splitOn "/") with
    | .ok entry => .ok entry.deliveries
    | .error fault => .error fault

end FileSystem

end Deflate.Command
