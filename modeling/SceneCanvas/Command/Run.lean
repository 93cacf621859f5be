import SceneCanvas.Command.Args
import SceneCanvas.Command.Output
import SceneCanvas.Host.Tag
import SceneCanvas.Render.Run
import SceneCanvas.Text.Fixed

/-!
# Commands

What the commands do, as a function of the file system they are run in: the exit code, what is
printed, the failure if there is one, and the image that is written. Nothing is printed before a
command has succeeded; the tag to report on is looked up only after the image has been written.
-/

namespace SceneCanvas.Command

open Asset (Storage Tree)
open Host (Display Side Tag)
open Render (Resources Runner)

/-- What a command line leads to. -/
structure Report where
  code : Nat := 0
  /-- The text printed. -/
  text : String := ""
  failure : Option SceneError := none
  image : Option Written := none
deriving Inhabited

/-- The text up to its first line end, which is a newline with or without a carriage return. -/
def firstLine (text : String) : String :=
  let line := text.toList.takeWhile (· != '\n')
  let returns := line.length < text.length && line.getLast? == some '\r'
  String.ofList (if returns then line.dropLast else line)

namespace Report

/-- A command line that does not fit. -/
def usage : Report := { code := 2 }

/-- A command that failed. -/
def failed (e : SceneError) : Report := { code := 1, failure := some e }

/-- What is printed about a failure. -/
def failureText (r : Report) : Option String := r.failure.map fun e => "Error: " ++ e.message

/-- The first line printed about a failure. -/
def failureLine (r : Report) : Option String := r.failureText.map firstLine

end Report

/-! ### Files -/

/-- The settings in a file. -/
def openSettings (tree : Tree) (path shown : String) : Except SceneError Settings :=
  match (tree path).openFailure? with
  | some cause => .error (.settingsOpen shown cause)
  | none =>
    match tree path with
    | .file (.bytes content) => Settings.ofBytes ⟨content⟩
    | _ => .error .settingsSyntax

/-- The settings that a command is to use. -/
def loadSettings (tree : Tree) : Option String → Except SceneError Settings
  | none => .ok {}
  | some path => (openSettings tree path path).mapError fun _ => .loadSettings path

/-- The text of a scene file. -/
def readScene (tree : Tree) (path : String) : Except SceneError String :=
  match tree path with
  | .file file => match file.text? with
    | some text => .ok text
    | none => .error (.readScene path)
  | _ => .error (.readScene path)

/-! ### The commands -/

/-- The name of a side. -/
def sideName : Side → String
  | .left => "left"
  | .right => "right"
  | .center => "center"

/-- The line about a tag: its name, share and side, and whether it hides the scene. -/
def tagLine (t : Tag) : String :=
  Text.padEnd 28 t.name ++ " " ++ Text.padStart 5 (Text.fixed 1 t.share) ++ "% "
    ++ sideName t.side ++ (if t.spoiler then " spoiler" else "") ++ "\n"

/-- The list of tags. -/
def listTags : Report := { text := String.join (Tag.all.map tagLine) }

/-- Print the settings in force. -/
def showSettings (tree : Tree) (path : Option String) : Report :=
  match loadSettings tree path with
  | .ok settings => { text := settings.toJson ++ "\n" }
  | .error e => .failed e

/-- The line about the display of a surface under a tag. -/
def displayLine (tag : String) (display : Display) : String :=
  tag ++ ": " ++ Text.fixed 2 display.width ++ "x" ++ toString display.height.toNat
    ++ " (scale " ++ Text.fixed 4 display.scale ++ ")\n"

/-- The directory of pictures and fonts that a render uses. -/
def assetRoot (args : RenderArgs) : String :=
  match args.assets with
  | some root => root
  | none => (parentOf? args.scene).getD "."

/-- Render a scene file to an image. -/
def renderImage (tree : Tree) (fonts : Font.Book) (args : RenderArgs) :
    Except SceneError (Settings × Written) := do
  let settings ← loadSettings tree args.config
  let source ← readScene tree args.scene
  let root := assetRoot args
  let fonts := fonts.load (tree.filesIn? (Tree.join root "fonts"))
  let runner ← Runner.make settings (Storage.below tree root root)
  let (surface, _) ← runner.render { fonts } source
  checkOutput tree args.out
  return (settings, ⟨args.out, surface.width, surface.height, ← surface.toStraight⟩)

/-- Render a scene file, and report the display of its tag. -/
def render (tree : Tree) (fonts : Font.Book) (args : RenderArgs) : Report :=
  match renderImage tree fonts args with
  | .error e => .failed e
  | .ok (settings, image) =>
    match args.tag, args.containerWidth with
    | some name, some hostWidth =>
      match Tag.find? name with
      | none => { Report.failed (.unknownTag name) with image := some image }
      | some tag =>
        { image := some image
          text := displayLine name
            (.fit (tag.containerWidth hostWidth) settings.sceneW settings.sceneH) }
    | _, _ => { image := some image }

/-- What is printed when help is asked for. -/
def helpText : String :=
  "Usage: scenebox [OPTIONS] <COMMAND>\n\nCommands:\n"
    ++ "  render  Render a scene file to a PNG\n"
    ++ "  tags    List the host tags a scene can be bound to\n"
    ++ "  config  Print the effective configuration as JSON\n"

/-- What is printed when the version is asked for. -/
def versionText : String := "scenebox 0.1.0\n"

/-- Carry out a request in a file system, with the fonts that every scene has. -/
def perform (tree : Tree) (fonts : Font.Book) : Request → Report
  | .render args => render tree fonts args
  | .tags => listTags
  | .config path => showSettings tree path
  | .help => { text := helpText }
  | .version => { text := versionText }

/-- Carry out a command line. -/
def run (tree : Tree) (fonts : Font.Book) (args : List String) : Report :=
  match parse args with
  | some request => perform tree fonts request
  | none => .usage

end SceneCanvas.Command
