import SceneCanvas.Error
import SceneCanvas.Text.Blank

/-!
# Asset paths

Assets are named by paths below a root directory. Normalising a path turns backslashes into
slashes and drops empty segments and dots; a path that starts at the root of the file system or
that climbs with `..` is refused, so a normalised path stays below its root.
-/

namespace SceneCanvas.Asset

open Text

/-- The slash that a character stands for, or itself. -/
def forwardSlash (c : Char) : Char := if c = '\\' then '/' else c

/-- The segments of a path, with empty ones and dots. -/
def rawSegments (path : List Char) : List (List Char) :=
  splitWhere (· == '/') (path.map forwardSlash)

/-- The segment names something. -/
def isProper (segment : List Char) : Bool := !segment.isEmpty && segment != ['.']

/-- The proper segments of a path, up to the first one that climbs. -/
def properSegments : List (List Char) → Except SceneError (List (List Char))
  | [] => .ok []
  | segment :: rest =>
    if !isProper segment then properSegments rest
    else if segment = ['.', '.'] then .error .pathClimbs
    else (properSegments rest).map (segment :: ·)

/-- The normal form of a path. -/
def normalizeChars (path : List Char) : Except SceneError (List Char) :=
  if (path.map forwardSlash).head? = some '/' then .error .pathAbsolute
  else do
    match ← properSegments (rawSegments path) with
    | [] => .error .pathEmpty
    | segments => .ok (['/'].intercalate segments)

/-- The normal form of a path. -/
def normalizePath (path : String) : Except SceneError String :=
  (normalizeChars path.toList).map String.ofList

end SceneCanvas.Asset
