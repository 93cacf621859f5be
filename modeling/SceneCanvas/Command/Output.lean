import SceneCanvas.Asset.Tree

/-!
# The image of a command

Where a command writes its image. The directories on the way to it are made if they are missing, so
a path fails only at something in its way: a file in place of a directory, a directory in place of
the file, or a name that the file system does not take.
-/

namespace SceneCanvas.Command

open Asset (Place Tree)

/-- An image to be written. -/
structure Written where
  path : String
  width : Nat
  height : Nat
  /-- Straight pixels. -/
  pixels : Buffer
deriving Repr, Inhabited

/-! ### Paths -/

/-- Leave out slashes and dots at the end of a path, given in reverse. -/
def trimTail : List Char → List Char
  | [] => []
  | '/' :: rest => if rest.isEmpty then ['/'] else trimTail rest
  | '.' :: '/' :: rest => if rest.isEmpty then ['/'] else trimTail rest
  | cs => cs

/-- The path without its last component; none if it has no component. -/
def parentOf? (path : String) : Option String :=
  match trimTail path.toList.reverse with
  | [] | ['/'] => none
  | cs => some (String.ofList (trimTail (cs.dropWhile (· != '/'))).reverse)

/-- The path can only be that of a directory. -/
def namesDirectory (path : String) : Bool :=
  match path.toList.reverse with
  | [] | '/' :: _ | ['.'] | ['.', '.'] => true
  | '.' :: '/' :: _ | '.' :: '.' :: '/' :: _ => true
  | _ => false

/-! ### Writing -/

/-- A directory can be made, with all the directories on the way to it. -/
def canMake (tree : Tree) (directory : String) : Bool :=
  (tree directory).allowsDirectory
    && (Place.along directory).all fun p => p.fits && (tree p.path).allowsDirectory

/-- A file can be written whose directory is there. -/
def canWrite (tree : Tree) (path : String) : Bool :=
  let place := Place.ofPath path
  !namesDirectory path && place.fits && (tree path).allowsFile && (tree place.path).allowsFile

/-- The output of a command can be written. -/
def checkOutput (tree : Tree) (path : String) : Except SceneError Unit := do
  match parentOf? path with
  | none | some "" => pure ()
  | some parent => unless canMake tree parent do throw (.createOutputDirectory parent)
  unless canWrite tree path do throw (.writeImage path)

/-- The paths that `checkOutput` asks about. -/
def outputPaths (path : String) : List String :=
  path :: (Place.ofPath path).path
    :: (parentOf? path).toList.flatMap fun parent => parent :: (Place.along parent).map Place.path

/-! ### Reading back -/

/-- The image in a file of the file system. -/
def storedImage? (tree : Tree) (path : String) : Option Written :=
  match tree path with
  | .file (.image width height channels samples) =>
    some ⟨path, width, height, Buffer.ofPixels (width * height) fun p =>
      channels.pixelAt samples (p * channels.count)⟩
  | _ => none

/-- The image at a path after an image has been written: that image if the paths lead to the same
place, and otherwise what was there before. -/
def imageAt? (tree : Tree) (written : Option Written) (path : String) : Option Written :=
  match written.filter fun image => Place.ofPath image.path = Place.ofPath path with
  | some image => some image
  | none => storedImage? tree path

end SceneCanvas.Command
