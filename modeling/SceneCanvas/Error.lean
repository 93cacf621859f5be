/-!
# Errors

Every failure is a cause, and the wording of a cause is given once, by `SceneError.detail`. The
printed message is the detail behind a label that names the part of the program at fault.
-/

namespace SceneCanvas

/-- The part of the program that a failure is charged to. -/
inductive SceneError.Kind where
  | validation
  | asset
  | render
  | config
  /-- Failures of the world outside, such as an unreadable file. -/
  | other
  /-- A word of size arithmetic overflowed, which no caller is meant to provoke. -/
  | overflow
deriving Repr, DecidableEq

/-- What can go wrong. -/
inductive SceneError where
  /-- A scene side outside the sizes a surface can have. -/
  | sizeOutOfRange (name : String) (value : UInt32)
  /-- A surface side of zero. -/
  | surfaceEmpty
  /-- A surface side that does not fit sixteen bits. -/
  | surfaceTooLarge
  /-- A buffer too short for the surface that it belongs to. -/
  | surfaceMismatch
  /-- A blur deviation that is negative or not finite. -/
  | blurDeviation
  /-- A kernel deviation that is not a positive number. -/
  | kernelDeviation
  /-- A text size that is not a positive number. -/
  | textSize
  /-- An asset path that starts at the root of the file system. -/
  | pathAbsolute
  /-- An asset path that climbs. -/
  | pathClimbs
  /-- An asset path without a single proper segment. -/
  | pathEmpty
  /-- No file under this path. -/
  | noSuchFile (path : String)
  /-- Two buffers of an operation differ in length, or hold a partial pixel. -/
  | unequalBuffers (operation : String)
  /-- The buffer handed to the exact blur has the wrong length. -/
  | blurLength
  /-- The size of a blur does not fit a word. -/
  | blurSize
  /-- The buffer handed to the box blur has the wrong length. -/
  | gaussianLength
  /-- The bytes of a face hold no font family. -/
  | noFontFamilies
  /-- The family that a face is registered as has no name. -/
  | namelessFontFamily
  /-- A face that has been registered is not among the registered ones. -/
  | fontFaceVanished
  /-- The settings are not well-formed JSON. -/
  | settingsSyntax
  /-- The settings are JSON, but not an object. -/
  | settingsNotObject
  /-- The settings file cannot be opened. -/
  | settingsOpen (path cause : String)
  /-- A file that no image decoder recognises. -/
  | undecodable
  /-- An asset that cannot be read. -/
  | unreadable (path : String)
  /-- The settings named on the command line cannot be used. -/
  | loadSettings (path : String)
  /-- The scene file cannot be read as text. -/
  | readScene (path : String)
  /-- The directory of the output cannot be made. -/
  | createOutputDirectory (path : String)
  /-- The output image cannot be written. -/
  | writeImage (path : String)
  /-- A tag that no host binds. -/
  | unknownTag (tag : String)
  /-- Size arithmetic left the range of a 64-bit word. -/
  | wordOverflow
deriving Repr, DecidableEq

namespace SceneError

/-- What a failure is charged to. -/
def kind : SceneError → Kind
  | sizeOutOfRange .. | surfaceEmpty | surfaceTooLarge | blurDeviation | kernelDeviation
  | textSize | pathAbsolute | pathClimbs | pathEmpty => .validation
  | noSuchFile _ => .asset
  | surfaceMismatch | unequalBuffers _ | blurLength | blurSize | gaussianLength
  | noFontFamilies | namelessFontFamily | fontFaceVanished => .render
  | settingsSyntax | settingsNotObject | settingsOpen .. => .config
  | undecodable | unreadable _ | loadSettings _ | readScene _ | createOutputDirectory _
  | writeImage _ | unknownTag _ => .other
  | wordOverflow => .overflow

/-- The wording of a failure, without its label. -/
def detail : SceneError → String
  | sizeOutOfRange name value => s!"{name} must be in 1..=65535, got {value}"
  | surfaceEmpty => "surface size must be non-zero"
  | surfaceTooLarge => "surface size exceeds u16"
  | surfaceMismatch => "surface buffer does not match its size"
  | blurDeviation => "blur sigma must be finite and >= 0"
  | kernelDeviation => "blur sigma must be > 0"
  | textSize => "text size must be finite and > 0"
  | pathAbsolute => "asset paths must be relative"
  | pathClimbs => "asset paths must not contain '..'"
  | pathEmpty => "asset path must contain a file name"
  | noSuchFile path => s!"no such file '{path}'"
  | unequalBuffers operation => s!"{operation} expects equal-length rgba8 buffers"
  | blurLength => "blur_rgba8_premul expects src matching width*height*4"
  | blurSize => "blur buffer size overflow"
  | gaussianLength => "gaussian_blur expects src matching width*height*4"
  | noFontFamilies => "no font families registered from font bytes"
  | namelessFontFamily => "registered font family has no name"
  | fontFaceVanished => "font face vanished from the layout engine"
  | settingsSyntax => "parse settings JSON"
  | settingsNotObject => "settings JSON must be an object"
  | settingsOpen path cause => s!"open settings JSON '{path}': {cause}"
  | undecodable => "decode image from memory"
  | unreadable path => s!"read asset '{path}'"
  | loadSettings path => s!"load config '{path}'"
  | readScene path => s!"read scene '{path}'"
  | createOutputDirectory path => s!"create output dir '{path}'"
  | writeImage path => s!"write png '{path}'"
  | unknownTag tag => s!"unknown tag '{tag}'"
  | wordOverflow => "size does not fit a 64-bit word"

/-- The label that a kind of failure is printed behind. -/
def Kind.label : Kind → String
  | .validation => "validation error: "
  | .asset => "asset error: "
  | .render => "render error: "
  | .config => "config error: "
  | .other | .overflow => ""

/-- The message as printed. -/
def message (e : SceneError) : String := e.kind.label ++ e.detail

end SceneError

end SceneCanvas
