import SceneCanvas.Geometry
import SceneCanvas.Script.Caption

/-!
# Placing a line of text

A line of text has a width, an ascent and a descent, and a place of its baseline below its top;
`layoutOrigin` puts it where a caption's position, alignment and baseline ask for, and `layerFrame`
is the rectangle that it is painted on.
-/

namespace SceneCanvas.Font

open Script (Align Baseline)

/-- The extent of a text, mostly of one line. -/
structure LineBox (α : Type) where
  width : α
  height : α
  ascent : α
  descent : α
  /-- The baseline, measured down from the top. -/
  baseline : α
deriving Repr, BEq, DecidableEq, Inhabited

/-- The top left corner of a line whose anchor point is given. -/
def layoutOrigin {α : Type} [Scalar α] (line : LineBox α) (align : Align) (baseline : Baseline)
    (anchor : Vec α) : Vec α :=
  let left := match align with
    | .left => anchor.x
    | .center => anchor.x - line.width / 2.0
    | .right => anchor.x - line.width
  let base := match baseline with
    | .top => anchor.y + line.ascent
    | .middle => anchor.y + (line.ascent - line.descent) / 2.0
    | .bottom => anchor.y - line.descent
  ⟨left, base - line.baseline⟩

/-- The width of the outline at a font size. -/
def strokeWidth {α : Type} [Scalar α] (size : α) : α := size / 16.0

/-- A rectangle given by its top left corner and its size. -/
structure Frame (α : Type) where
  corner : Vec α
  size : Vec α
deriving Repr, BEq, DecidableEq, Inhabited

/-- How far a caption's layer reaches beyond its line: the outline, and room for the shadow. -/
def margin {α : Type} [Scalar α] (strokeRadius : α) : α := Scalar.ceil strokeRadius + 8.0

/-- The layer that a line is painted on, on whole pixels. -/
def layerFrame {α : Type} [Scalar α] (line : LineBox α) (origin : Vec α) (strokeRadius : α) :
    Frame α :=
  let pad := margin strokeRadius
  { corner := ⟨Scalar.floor (origin.x - pad), Scalar.floor (origin.y - pad)⟩
    size := ⟨Scalar.ceil (line.width + 2.0 * pad), Scalar.ceil (line.height + 2.0 * pad)⟩ }

end SceneCanvas.Font
