import SceneCanvas.Asset.Path

/-!
# Places

The place that a path of a file system leads to, once the directories on the way exist: empty
segments and dots stay where they are, and two dots lead back to the directory above. Two paths
with the same place lead to the same file.
-/

namespace SceneCanvas.Asset

open Text

/-- The segment that leads to the directory above. -/
def climb : List Char := ['.', '.']

/-- The most bytes that the name of a file or directory can have. -/
def longestName : Nat := 255

/-- The most bytes that a path can have. -/
def longestPath : Nat := 4095

/-- A segment that can be the name of a file or directory. -/
def fitsName (segment : List Char) : Bool := (String.ofList segment).utf8ByteSize ≤ longestName

/-- A path without dots. -/
structure Place where
  /-- The path starts at the root of the file system, and not at the working directory. -/
  absolute : Bool
  /-- The segments from the last one up. Those that climb above the working directory come last. -/
  upward : List (List Char)
deriving Repr, DecidableEq, Inhabited

namespace Place

/-- The place where a path starts. -/
def origin (path : List Char) : Place := ⟨path.head? == some '/', []⟩

/-- Where a segment leads. There is nothing above the root of the file system. -/
def enter (p : Place) (segment : List Char) : Place :=
  if !isProper segment then p
  else if segment = climb then
    match p.upward with
    | [] => if p.absolute then p else { p with upward := [climb] }
    | last :: above =>
      if last = climb then { p with upward := climb :: p.upward } else { p with upward := above }
  else { p with upward := segment :: p.upward }

/-- The place that a path leads to. -/
def ofPath (path : String) : Place :=
  (splitWhere (· == '/') path.toList).foldl enter (origin path.toList)

/-- The places that some segments lead through, in order. -/
def through (p : Place) : List (List Char) → List Place
  | [] => []
  | segment :: rest => p.enter segment :: (p.enter segment).through rest

/-- The places that a path leads through, in order. -/
def along (path : String) : List Place :=
  (origin path.toList).through (splitWhere (· == '/') path.toList)

/-- The path of a place; the working directory has the empty one. -/
def path (p : Place) : String :=
  String.ofList ((if p.absolute then ['/'] else []) ++ ['/'].intercalate p.upward.reverse)

/-- The last segment can be a name. -/
def fits (p : Place) : Bool := (p.upward.head?.map fitsName).getD true

/-- The place is the working directory, or somewhere above it. -/
def isAbove (p : Place) : Bool := p.upward.all (· = climb)

/-- The place lies below the working directory, or is that directory. -/
def isInside (p : Place) : Bool := !p.absolute && !p.upward.contains climb

end Place

end SceneCanvas.Asset
