import SceneCanvas.Asset.File
import SceneCanvas.Asset.Place

/-!
# File systems

A file system is known by what every path leads to. A `Directory` is one with a known list of
files: a path is followed segment by segment, and every segment but the last has to lead to a
directory.
-/

namespace SceneCanvas.Asset

open Text

/-- What a path leads to. -/
inductive Entry where
  | file (content : File)
  /-- A directory, with the names of what lies directly in it. -/
  | directory (names : List String)
  | missing
  /-- The path goes on behind a file. -/
  | notDirectory
  /-- The path, or a name in it, is longer than a file system takes. -/
  | tooLong
  /-- The path holds the character that ends a path. -/
  | unnameable
deriving Repr, Inhabited

namespace Entry

/-- The entry is a file. -/
def isFile : Entry → Bool
  | file _ => true
  | _ => false

/-- A directory is there, or can be made. -/
def allowsDirectory : Entry → Bool
  | directory _ | missing => true
  | _ => false

/-- A file is there, or can be made. -/
def allowsFile : Entry → Bool
  | file _ | missing => true
  | _ => false

/-- Why a path cannot be opened, in the words of the operating system. -/
def openFailure? : Entry → Option String
  | missing => some "No such file or directory (os error 2)"
  | notDirectory => some "Not a directory (os error 20)"
  | tooLong => some "File name too long (os error 36)"
  | unnameable => some "file name contained an unexpected NUL byte"
  | file _ | directory _ => none

end Entry

/-- A file system, by what every path leads to. -/
abbrev Tree := String → Entry

namespace Tree

/-- The path of something below a directory. -/
def join (directory path : String) : String :=
  if directory.isEmpty then path
  else if directory.toList.getLast? = some '/' then directory ++ path
  else directory ++ "/" ++ path

/-- The files directly in a directory, by name; none if the path is not that of a directory. -/
def filesIn? (tree : Tree) (directory : String) : Option (List (String × File)) :=
  match tree directory with
  | .directory names =>
    some <| names.filterMap fun name =>
      match tree (join directory name) with
      | .file content => some (name, content)
      | _ => none
  | _ => none

end Tree

/-! ### A file system with known files -/

/-- The files below the working directory, by the paths of their places. -/
structure Directory where
  files : List (String × File) := []
deriving Repr, Inhabited

namespace Directory

/-- The names directly below the directory with the given segments. -/
def namesBelow (d : Directory) (segments : List (List Char)) : List String :=
  let above := segments.flatMap (· ++ ['/'])
  (d.files.filterMap fun f =>
    if startsWith f.1.toList above then
      some (String.ofList ((f.1.toList.drop above.length).takeWhile (· != '/')))
    else none).eraseDups

/-- What lies at a place outside the working directory: the directories above it, and the null
device, which reads as an empty file. -/
def entryOutside (place : Place) : Entry :=
  if place.isAbove || place.path == "/dev" then .directory []
  else if place.path == "/dev/null" then .file (.bytes #[])
  else .missing

/-- What lies at a place. -/
def entryAt (d : Directory) (place : Place) : Entry :=
  if !place.isInside then entryOutside place
  else match d.files.lookup place.path with
  | some content => .file content
  | none =>
    match d.namesBelow place.upward.reverse with
    | [] => if place.isAbove then .directory [] else .missing
    | names => .directory names

/-- Follow segments from a place. -/
def follow (d : Directory) (place : Place) : List (List Char) → Entry
  | [] => d.entryAt place
  | segment :: rest =>
    match d.entryAt place with
    | .directory _ =>
      if fitsName segment then d.follow (place.enter segment) rest else .tooLong
    | .file _ => .notDirectory
    | entry => entry

/-- What a path leads to. The empty path leads nowhere. -/
def tree (d : Directory) : Tree := fun path =>
  if path.toList.contains '\x00' then .unnameable
  else if longestPath < path.utf8ByteSize then .tooLong
  else if path.isEmpty then .missing
  else d.follow (.origin path.toList) (splitWhere (· == '/') path.toList)

end Directory

end SceneCanvas.Asset
