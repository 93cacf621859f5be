import SceneCanvas.Command.Reach
import SceneCanvas.Png.Image

/-!
# The command line

The program around the commands: it looks up the paths that a command may ask about, runs the
command, writes its image, and prints what it has to say.
-/

namespace SceneCanvas.Command

open Asset (Entry)

/-- What a failure to read a file says about its path. -/
def entryOfError : IO.Error → Entry
  | .inappropriateType _ 20 _ => .notDirectory
  | .inappropriateType .. => .directory []
  | .invalidArgument _ 36 _ => .tooLong
  | _ => .missing

/-- What a path leads to. -/
def look (path : String) : IO (String × Entry) := do
  match ← (IO.FS.readBinFile path).toBaseIO with
  | .ok bytes => return (path, .file (Png.fileOf bytes.data))
  | .error e => return (path, entryOfError e)

/-- Look up all that a request may ask about. -/
def explore (request : Request) : IO (List (String × Entry)) := do
  let known ← request.paths.mapM look
  match request.scene? with
  | none => return known
  | some args =>
    match readScene (treeOf known) args.scene with
    | .error _ => return known
    | .ok source => return known ++ (← (assetPaths args source).mapM look)

/-- The faces that every scene can use. -/
def commonFonts : Font.Book :=
  .ofFaces [{ family := "Box Sans", weight := Font.normalWeight }]

/-- Write an image file, and the directory that it lies in if there is none. -/
def writeImage (image : Written) : IO Unit := do
  match parentOf? image.path with
  | none | some "" => pure ()
  | some parent => IO.FS.createDirAll parent
  IO.FS.writeBinFile image.path ⟨Png.encode image.width image.height image.pixels⟩
  IO.eprintln ("wrote " ++ image.path)

/-- Print what came of a command line, and answer with the exit code. -/
def conclude (report : Report) : IO UInt32 := do
  IO.print report.text
  match report.failureText with
  | some line => IO.eprintln line
  | none => if report.code == 2 then IO.eprint helpText
  return report.code.toUInt32

/-- Run a command line in the file system. -/
def runIn (args : List String) : IO UInt32 := do
  match parse args with
  | none => conclude .usage
  | some request =>
    let report := perform (treeOf (← explore request)) commonFonts request
    match report.image with
    | none => conclude report
    | some image =>
      match ← (writeImage image).toBaseIO with
      | .ok () => conclude report
      | .error _ => conclude (.failed (.writeImage image.path))

end SceneCanvas.Command

/-- The program. -/
def main (args : List String) : IO UInt32 := SceneCanvas.Command.runIn args
