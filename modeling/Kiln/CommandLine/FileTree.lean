/-
Module: Kiln.CommandLine.FileTree
Purpose: Files in folders, and the way from a path to a file. A path is followed name by name, from the
  root if it begins with a slash and from the working folder otherwise. The first name that leads
  nowhere decides why the file cannot be read.
Main exports: FileError, FileError.message, Place, FileTree, FileTree.enter, FileTree.find,
  FileTree.read
-/

namespace Kiln

/-- Why a file cannot be read as text. -/
inductive FileError where
  | notFound
  | permissionDenied
  /-- A path goes on behind something that is no folder. -/
  | notFolder
  /-- A folder is read as if it were a file. -/
  | isFolder
  | nameTooLong
  /-- The bytes are not UTF-8. -/
  | notText
  /-- Another reason, in the system's words. -/
  | other (reason : String)
deriving DecidableEq, Repr, Inhabited

/-- The message for a file that cannot be read. -/
def FileError.message : FileError → String
  | .notFound => "No such file or directory (os error 2)"
  | .permissionDenied => "Permission denied (os error 13)"
  | .notFolder => "Not a directory (os error 20)"
  | .isFolder => "Is a directory (os error 21)"
  | .nameTooLong => "File name too long (os error 36)"
  | .notText => "stream did not contain valid UTF-8"
  | .other reason => reason

/-- Where a file or folder is: the names that lead to it from the root. -/
abbrev Place := List String

/-- Files by their places, further folders, and the folder in which paths begin. Every place on the way to
    one of them is a folder too. -/
structure FileTree where
  files : List (Place × ByteArray)
  folders : List Place
  working : Place

namespace FileTree

/-- The pieces between the slashes of a path. -/
def pieces : List Char → List (List Char)
  | [] => [[]]
  | c :: rest =>
    match c, pieces rest with
    | '/', later => [] :: later
    | c, [] => [[c]]
    | c, piece :: later => (c :: piece) :: later

/-- The names between the slashes of a path. -/
def names (path : String) : List String := (pieces path.toList).map String.ofList

/-- The most bytes that a name may have. -/
def longestName : Nat := 255

/-- The most bytes that a path may have. -/
def longestPath : Nat := 4095

/-- Whether a place is a folder. -/
def isFolder (t : FileTree) (place : Place) : Bool :=
  (t.working :: t.folders).any (place.isPrefixOf ·)
    || t.files.any fun (file, _) => place.isPrefixOf file && place != file

/-- Whether there is a folder or a file at a place. -/
def occupied (t : FileTree) (place : Place) : Bool :=
  t.isFolder place || (t.files.lookup place).isSome

/-- Follows one name of a path. An empty name and a single dot stay in the folder, two dots leave it. -/
def enter (t : FileTree) (here : Place) (name : String) : Except FileError Place :=
  if !t.isFolder here then .error .notFolder
  else if name = "" ∨ name = "." then .ok here
  else if name = ".." then .ok here.dropLast
  else if longestName < name.utf8ByteSize then .error .nameTooLong
  else if t.occupied (here ++ [name]) then .ok (here ++ [name])
  else .error .notFound

/-- The place to which a path leads. -/
def find (t : FileTree) (path : String) : Except FileError Place :=
  if path = "" then .error .notFound
  else if longestPath < path.utf8ByteSize then .error .nameTooLong
  else (names path).foldlM t.enter (if path.toList.head? = some '/' then [] else t.working)

/-- The bytes of the file to which a path leads. -/
def read (t : FileTree) (path : String) : Except FileError ByteArray := do
  let place ← t.find path
  match t.files.lookup place with
  | some bytes => return bytes
  | none => throw .isFolder

end FileTree

end Kiln
