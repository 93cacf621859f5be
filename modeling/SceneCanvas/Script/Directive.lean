import SceneCanvas.ColorMatrix
import SceneCanvas.Script.Caption
import SceneCanvas.Script.Line
import SceneCanvas.Script.Placement
import SceneCanvas.Script.Zoom
import SceneCanvas.Text.Numeral

/-!
# Directives

What a line of a scene asks for. The command word picks the directive; a word that is no command
names a picture. Options are numbers read leniently, and an option that is missing or holds no
number takes its default.
-/

namespace SceneCanvas.Script

/-- The tone words that may follow a blur. -/
def toneOf? (word : String) : Option (Tone Float32) :=
  match word with
  | "DARK" => some (.brightness 0.5)
  | "DARKER" => some (.brightness 0.25)
  | "LIGHT" => some (.brightness 1.5)
  | "LIGHTER" => some (.brightness 1.8)
  | "DESAT" => some (.saturate 0.5)
  | "SAT" => some (.saturate 1.5)
  | _ => none

/-- The largest deviation of a blur in pixels. -/
def maxBlur : UInt32 := 128

/-- One command of a scene. -/
inductive Directive where
  | title (line : TextLine)
  | subtitle (line : TextLine)
  /-- Black over the scene. -/
  | dark (amount : Float32)
  /-- White over the scene. -/
  | light (amount : Float32)
  | blur (pixels : UInt32) (tones : List (Tone Float32))
  /-- A blurred copy added to the scene. -/
  | bloom (pixels : UInt32) (alpha : Float32)
  | zoom (params : Zoom Float)
  /-- The amount is in percent. -/
  | grayscale (amount : Float32)
  /-- The amount is in percent. -/
  | sepia (amount : Float32)
  | invert
  | hue (degrees : Float32)
  | image (picture : ImageRef Float)
deriving Repr, Inhabited

namespace Directive

/-- The short name of a directive. -/
def name : Directive → String
  | title _ => "title"
  | subtitle _ => "subtitle"
  | dark _ => "dark"
  | light _ => "light"
  | blur .. => "blur"
  | bloom .. => "bloom"
  | zoom _ => "zoom"
  | grayscale _ => "grayscale"
  | sepia _ => "sepia"
  | invert => "invert"
  | hue _ => "hue"
  | image _ => "image"

/-- The text of a caption and the modifiers after it; none without a text. -/
def textLine? : List String → Option TextLine
  | [] => none
  | text :: modifiers => some ⟨text, modifiers⟩

/-- A numeric option. -/
def number (line : Line) (key : String) (default : Float) : Float :=
  (line.option? key |>.bind fun value => Text.lenientFloat? value.toList).getD default

/-- The deviation of a blur, held to `0, …, maxBlur`. -/
def deviation (line : Line) (default : UInt32) : UInt32 :=
  match line.option? "pixels" |>.bind fun value => Text.lenientInt? value.toList with
  | some n => (max 0 (min n maxBlur.toNat)).toNat.toUInt32
  | none => default

/-- What a line asks for; none if it asks for nothing. -/
def ofLine? (line : Line) : Option Directive := do
  match ← line.command? with
  | "TITLE" | "T" => return title (← textLine? line.rest)
  | "SUBTITLE" | "S" => return subtitle (← textLine? line.rest)
  | "DARK" => return dark (number line "amount" 0.5).toFloat32
  | "LIGHT" => return light (number line "amount" 0.5).toFloat32
  | "BLUR" => return blur (deviation line 8) (line.rest.filterMap toneOf?)
  | "BLOOM" => return bloom (max (deviation line 8) 1) (number line "alpha" 0.5).toFloat32
  | "ZOOM" =>
    return zoom
      { zoom := number line "zoom" 2.0
        degrees := number line "degrees" 0.0
        focus := ⟨number line "xpos" 0.5, number line "ypos" 0.5⟩ }
  | "GRAY" | "GRAYSCALE" => return grayscale (number line "amount" 100.0).toFloat32
  | "SEPIA" => return sepia (number line "amount" 100.0).toFloat32
  | "INVERT" => return invert
  | "HUE" => return hue (number line "amount" 90.0).toFloat32
  | identifier => return image (ImageRef.resolve identifier line.rest)

end Directive

end SceneCanvas.Script
