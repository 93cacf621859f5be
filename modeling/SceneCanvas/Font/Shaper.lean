import SceneCanvas.Drawing
import SceneCanvas.Font.Layout
import SceneCanvas.Memo

/-!
# Shaping texts

A shaping engine knows faces by the families that their bytes are registered as, and sets a text in
such a family. Which glyphs it takes, how it breaks lines and where it puts them is its own business
(`Shaper`); what of it reaches a caption is a `Paragraph`.

A face is registered when a text is first set in it (`Shaper.loadFace`). That fails if its bytes
hold no family, or one without a name, and then the text cannot be laid out.
-/

namespace SceneCanvas.Font

open Asset (FontFace)

/-! ### Paragraphs -/

/-- A glyph of a line. It stands `x` to the right of the pen and `y` above it, and moves the pen on
by `advance`. -/
structure ShapedGlyph where
  id : Nat
  x : Float32
  y : Float32
  advance : Float32
deriving Repr, BEq, DecidableEq, Inhabited

/-- Glyphs of one font size that follow each other on a line. -/
structure ShapedRun where
  /-- Where the pen starts. -/
  offset : Float32
  /-- The baseline, measured down from the top of the paragraph. -/
  baseline : Float32
  fontSize : Float32
  glyphs : List ShapedGlyph
deriving Repr, BEq, DecidableEq, Inhabited

/-- A line of a paragraph. -/
structure ShapedLine where
  ascent : Float32
  descent : Float32
  /-- The baseline, measured down from the top of the paragraph. -/
  baseline : Float32
  runs : List ShapedRun
deriving Repr, BEq, DecidableEq, Inhabited

/-- A text that has been set. -/
structure Paragraph where
  width : Float32
  height : Float32
  lines : List ShapedLine
deriving Repr, BEq, DecidableEq, Inhabited

/-- Put glyphs down from a pen at `x` on. -/
def placeGlyphs (baseline : Float32) : Float32 → List ShapedGlyph → List PlacedGlyph
  | _, [] => []
  | x, g :: rest =>
    ⟨g.id, ⟨x + g.x, baseline - g.y⟩⟩ :: placeGlyphs baseline (x + g.advance) rest

/-- The glyphs of a run, put down one after the other. -/
def ShapedRun.placed (run : ShapedRun) : GlyphRun :=
  ⟨run.fontSize, placeGlyphs run.baseline run.offset run.glyphs⟩

namespace Paragraph

/-- The extent of a paragraph, with the measures of its first line. -/
def lineBox (p : Paragraph) : LineBox Float :=
  let (ascent, descent, baseline) := match p.lines with
    | [] => (0.0, 0.0, 0.0)
    | line :: _ => (line.ascent, line.descent, line.baseline)
  { width := p.width.toFloat
    height := p.height.toFloat
    ascent := ascent.toFloat
    descent := descent.toFloat
    baseline := baseline.toFloat }

/-- All glyphs of a paragraph. -/
def runs (p : Paragraph) : List GlyphRun := p.lines.flatMap fun line => line.runs.map (·.placed)

end Paragraph

/-! ### Engines -/

/-- A face that has been registered, with the family to ask for it by. -/
structure LoadedFace where
  family : String
  face : FontFace
deriving Repr, BEq, DecidableEq, Inhabited

/-- A shaping engine. -/
structure Shaper where
  /-- The families that the bytes of a face are registered as, by their names. -/
  register : FontFace → List (Option String)
  /-- A text set in a registered face, at a font size and in bold or not. -/
  shape : LoadedFace → String → Float32 → Bool → Paragraph

/-- A text that has been set, and the face to draw it with. -/
structure ShapedText where
  paragraph : Paragraph
  face : FontFace
deriving Repr, Inhabited

namespace Shaper

variable (shaper : Shaper)

/-- The face as the engine knows it, by the first family that its bytes hold. -/
def registerFace (face : FontFace) : Except SceneError LoadedFace :=
  match shaper.register face with
  | [] => .error .noFontFamilies
  | none :: _ => .error .namelessFontFamily
  | some family :: _ => .ok ⟨family, face⟩

/-- Register a face, unless it has been, and look it up. -/
def loadFace (known : Memo FontFace LoadedFace) (face : FontFace) :
    Except SceneError LoadedFace × Memo FontFace LoadedFace :=
  let registered : Except SceneError (Memo FontFace LoadedFace) := match known.find? face with
    | some _ => .ok known
    | none => (shaper.registerFace face).map (known.insert face)
  match registered with
  | .error e => (.error e, known)
  | .ok known =>
    match known.find? face with
    | some loaded => (.ok loaded, known)
    | none => (.error .fontFaceVanished, known)

/-- Lay out a text in a face by an engine that has not seen the face before. The font size has to be
a positive number. -/
def layout (face : FontFace) (text : String) (size : Float32) (bold : Bool) :
    Except SceneError ShapedText :=
  if !size.isFinite || size ≤ 0.0 then .error .textSize
  else do
    let loaded ← (shaper.loadFace {} face).1
    return ⟨shaper.shape loaded text size bold, loaded.face⟩

end Shaper

end SceneCanvas.Font
