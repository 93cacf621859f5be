import SceneCanvas.Asset.File
import SceneCanvas.Memo

/-!
# Font books

A font book holds the faces that have been loaded and finds the best one for a family and a
weight. Answers are remembered until more faces are loaded.

How font files are read, and which face suits best, is the business of a font database. A book asks
three things of it (`Database`) and works with any (`BookOf`). The books of a scene (`Book`) know a
face by its family and its weight (`byName`).
-/

namespace SceneCanvas.Font

open Asset (File FontFace)

/-- The weight of ordinary text. -/
def normalWeight : Nat := 400

/-- The weight of bold text. -/
def boldWeight : Nat := 700

/-- A family to look for. -/
inductive Family where
  | named (name : String)
  /-- Whatever the database takes for a sans-serif. -/
  | sansSerif
deriving Repr, DecidableEq

/-- The families to try, the wanted one first; no name stands for the sans-serif. -/
def familiesFor (family : String) : List Family :=
  (if family.isEmpty then [] else [.named family]) ++ .sansSerif ::
    ["DejaVu Sans", "Liberation Sans", "Noto Sans", "Arial", "Helvetica"].map .named

/-- The first face with the least value of a measure. -/
def leastBy (measure : FontFace → Nat) : List FontFace → Option FontFace
  | [] => none
  | face :: rest =>
    match leastBy measure rest with
    | some other => if measure other < measure face then some other else some face
    | none => some face

/-- The lightest face that is heavier than `weight`. -/
def nextHeavier (weight : Nat) (faces : List FontFace) : Option FontFace :=
  leastBy (fun f => f.weight) (faces.filter fun f => weight < f.weight)

/-- The heaviest face that is lighter than `weight`. -/
def nextLighter (weight : Nat) (faces : List FontFace) : Option FontFace :=
  leastBy (fun f => weight - f.weight) (faces.filter fun f => f.weight < weight)

/-- The face of exactly the weight. -/
def ofWeight (weight : Nat) (faces : List FontFace) : Option FontFace :=
  faces.find? fun f => f.weight == weight

/-- The face of a family whose weight suits best: the exact weight; else for bold text the next
heavier and the next lighter one, and for ordinary text 500, the next lighter and the next heavier
one. -/
def bestWeight (weight : Nat) (faces : List FontFace) : Option FontFace :=
  if weight = boldWeight then
    ofWeight weight faces <|> nextHeavier weight faces <|> nextLighter weight faces
  else
    ofWeight weight faces <|> ofWeight 500 faces <|> nextLighter weight faces
      <|> nextHeavier weight faces

/-! ### Font files -/

/-- The extension of a file name, without its dot; a leading dot starts no extension. -/
def extension? (name : List Char) : Option (List Char) :=
  let tail := name.reverse.takeWhile (· != '.')
  match name.reverse.dropWhile (· != '.') with
  | _ :: _ :: _ => some tail.reverse
  | _ => none

/-- The name is that of a font file. -/
def isFontName (name : String) : Bool :=
  match extension? name.toList with
  | some extension =>
    [['t', 't', 'f'], ['o', 't', 'f'], ['t', 't', 'c']].contains (extension.map Char.toLower)
  | none => false

/-! ### Databases -/

/-- A font database, by what a book asks of it. It keeps a `ρ` of each loaded face, and hands out a
`φ`. -/
structure Database (ρ φ : Type) where
  /-- Add the faces of a font file. A file that cannot be loaded has none. -/
  add : List ρ → File → List ρ
  /-- The best of the loaded faces for some families, the most wanted one first, and a weight. -/
  best? : List ρ → List Family → Nat → Option ρ
  /-- What is handed out of a face, if it can be read. -/
  data? : ρ → Option φ

namespace Database

variable {ρ φ : Type} (db : Database ρ φ)

/-- The best face for a family and a weight, or else the face loaded first. -/
def query (faces : List ρ) (family : String) (bold : Bool) : Option φ :=
  let weight := if bold then boldWeight else normalWeight
  (db.best? faces (familiesFor family) weight <|> faces.head?).bind db.data?

/-- Add the faces of a file, if its name is that of a font file. -/
def addNamed (faces : List ρ) : String × File → List ρ
  | (name, file) => if isFontName name then db.add faces file else faces

end Database

/-- The name of a family. The sans-serif is Arial. -/
def Family.name : Family → String
  | named name => name
  | sansSerif => "Arial"

/-- The faces of a book are known by their families and weights: the best one is of the first
family that has any. -/
def byName : Database FontFace FontFace where
  add faces
    | .font face => faces ++ [face]
    | _ => faces
  best? faces families weight := families.findSome? fun family =>
    bestWeight weight (faces.filter fun f => f.family == family.name)
  data? := some

/-! ### Books -/

/-- Loaded faces and remembered answers. -/
structure BookOf (ρ φ : Type) where
  /-- The faces in the order in which they were loaded. -/
  faces : List ρ := []
  resolved : Memo (String × Bool) (Option φ) := {}
deriving Inhabited

namespace BookOf

variable {ρ φ : Type}

/-- A book of some faces. -/
def ofFaces (faces : List ρ) : BookOf ρ φ := { faces }

/-- The best face, from memory if the same was asked before. -/
def resolveWith (db : Database ρ φ) (book : BookOf ρ φ) (family : String) (bold : Bool) :
    Option φ × BookOf ρ φ :=
  match book.resolved.find? (family, bold) with
  | some face => (face, book)
  | none =>
    let face := db.query book.faces family bold
    (face, { book with resolved := book.resolved.insert (family, bold) face })

/-- Load the font files of a directory; no directory changes nothing. -/
def loadWith (db : Database ρ φ) (book : BookOf ρ φ) : Option (List (String × File)) → BookOf ρ φ
  | none => book
  | some files => .ofFaces (files.foldl db.addNamed book.faces)

end BookOf

/-- The book of a scene. -/
abbrev Book : Type := BookOf FontFace FontFace

namespace Book

/-- The best face, from memory if the same was asked before. -/
def resolve (book : Book) (family : String) (bold : Bool) : Option FontFace × Book :=
  book.resolveWith byName family bold

/-- Load the font files of a directory. Files without a readable face are passed over. -/
def load (book : Book) (directory : Option (List (String × File))) : Book :=
  book.loadWith byName directory

/-- A book of some faces. -/
def ofFaces (faces : List FontFace) : Book := BookOf.ofFaces faces

end Book

end SceneCanvas.Font
