import UnitScript.File.Basic

/-!
# File trees

A `Tree` is a file, or a directory with all that it holds, kept in memory.  The
command can be run on one in place of the files of the system.

* A path is a row of names between slashes.  `Place.step` follows one name,
  `Place.resolve?` a whole path.
* `Place.read` is the text that stands under a path.
-/

namespace UnitScript.File

/-- A file, or a directory with its entries. -/
inductive Tree where
  | file (content : ByteArray)
  | directory (entries : List (String × Tree))

/-- A place in a tree: what stands there, and the directories around it from
the innermost to the root. -/
structure Place where
  node : Tree
  above : List Tree

/-- The longest name of a file or a directory, in bytes. -/
def maxNameLength : Nat := 255

/-- The longest path, in bytes. -/
def maxPathLength : Nat := 4095

/-- The names of a path, which are empty before, between and after slashes
where nothing stands. -/
def names : List Char → List (List Char)
  | [] => [[]]
  | c :: rest =>
      match names rest with
      | [] => [[c]]
      | name :: more => if c = '/' then [] :: name :: more else (c :: name) :: more

namespace Place

/-- The directory around a place; the root is around itself. -/
def parent (place : Place) : Place :=
  match place.above with
  | [] => place
  | node :: above => ⟨node, above⟩

/-- The root of the tree that a place is in. -/
def root (place : Place) : Place :=
  ⟨place.above.getLast?.getD place.node, []⟩

/-- Follows a name.  A name is followed from a directory only; the empty name
and `.` stay there, and `..` leads to the directory around it. -/
def step (place : Place) (name : String) : Except SystemError Place :=
  match place.node with
  | .file _ => .error .notDirectory
  | .directory entries =>
      if name = "" ∨ name = "." then .ok place
      else if name = ".." then .ok place.parent
      else if maxNameLength < name.utf8ByteSize then .error .nameTooLong
      else
        match entries.lookup name with
        | some node => .ok ⟨node, place.node :: place.above⟩
        | none => .error .notFound

/-- Follows a path, from the root if it starts with a slash. -/
def resolve? (place : Place) (path : String) : Except SystemError Place :=
  if maxPathLength < path.utf8ByteSize then .error .nameTooLong
  else if path = "" then .error .notFound
  else
    match (names path.toList).map String.ofList with
    | "" :: rest => rest.foldlM step place.root
    | all => all.foldlM step place

/-- The text of the file under a path. -/
def read (place : Place) (path : String) : Except ReadError String :=
  match place.resolve? path with
  | .error cause => .error (.system cause)
  | .ok found =>
      match found.node with
      | .file content => decode content
      | .directory _ => .error (.system .isDirectory)

end Place

end UnitScript.File
