import SceneCanvas.Blend
import SceneCanvas.Blur.Exact
import SceneCanvas.Font.Book
import SceneCanvas.Font.Shaper

/-!
# Painting captions

A caption is painted on a layer of its own: an outline, the glyphs filled with a vertical gradient,
a soft shadow below and to the right, and the fill once more. The layer is then laid over the
surface. A caption that cannot be laid out, has no face, or needs too large a layer leaves the
surface as it is. The text is set by a shaping engine, and its glyphs are drawn by a rasterizer.
-/

namespace SceneCanvas.Font

open Asset (FontFace)
open Script (Caption)

/-! ### The shadow -/

/-- The alpha bytes of a layer. -/
def alphaMask (layer : Buffer) : Buffer :=
  Buffer.ofBytes layer.pixelCount fun p => (layer.pixelAt p).a

/-- Move a mask of `w` by `h` bytes right by `dx` and down by `dy`, and fill with nothing. -/
def shiftMask (mask : Buffer) (w h dx dy : Nat) : Buffer :=
  Buffer.ofBytes mask.size fun i =>
    let x := i % w
    let y := i / w
    if dx ≤ x ∧ dy ≤ y ∧ y < h then mask.byteAt ((y - dy) * w + (x - dx)) else 0

/-- The mask as a pixel buffer, the same byte in all four channels. -/
def spread (mask : Buffer) : Buffer :=
  Buffer.ofPixels mask.size fun i =>
    let a := mask.byteAt i
    ⟨a, a, a, a⟩

/-- Blur a mask of `w` by `h` bytes. -/
def softenMask (mask : Buffer) (w h radius : Nat) (sigma : Float32) : Except SceneError Buffer :=
  return alphaMask (← (spread mask).exactBlur w h radius sigma)

/-- The black layer with a mask for its alpha. -/
def shadowLayer (mask : Buffer) : Buffer :=
  Buffer.ofPixels mask.size fun i => ⟨0, 0, 0, mask.byteAt i⟩

/-! ### Captions -/

/-- The colour of the outline. -/
def strokeColor : Pixel := ⟨0x24, 0x24, 0x24, 0xFF⟩

/-- The colour at the top of the gradient. -/
def gradientFirst : Pixel := ⟨0xFF, 0xFF, 0xFF, 0xFF⟩

/-- The colour at the bottom of the gradient. -/
def gradientLast : Pixel := ⟨0xE6, 0xE6, 0xE6, 0xFF⟩

/-- Half the height of the gradient band around a caption's anchor. -/
def bandHalf : Float := 20.0

/-- What is painted on the layer of a caption. -/
structure Lettering where
  face : FontFace
  runs : List GlyphRun
  /-- The top left corner of the paragraph. -/
  origin : Vec Float
  strokeWidth : Float
  /-- Where the gradient starts. -/
  bandTop : Float
  /-- Where the gradient ends. -/
  bandBottom : Float
deriving Repr, Inhabited

namespace Lettering

variable (lettering : Lettering)

/-- The filled glyphs, in white; only their coverage counts. -/
def glyphs : Drawing :=
  .glyphs lettering.face lettering.runs lettering.origin none ⟨255, 255, 255, 255⟩

/-- The outlined glyphs. -/
def outline : Drawing :=
  .glyphs lettering.face lettering.runs lettering.origin (some lettering.strokeWidth) strokeColor

/-- The gradient that the glyphs are filled with. -/
def gradient : Drawing :=
  .gradient lettering.bandTop lettering.bandBottom gradientFirst gradientLast

end Lettering

section

variable (raster : Rasterizer)

/-- The layer of a caption, `w` by `h` pixels. -/
def captionLayer (w h : Nat) (lettering : Lettering) : Except SceneError Buffer := do
  let mask := alphaMask (raster.layer lettering.glyphs w h)
  let outline := raster.layer lettering.outline w h
  let fill := (raster.layer lettering.gradient w h).maskWith mask
  let shadow := shadowLayer (← softenMask (shiftMask mask w h 1 2) w h 3 1.0)
  let layer ← outline.sourceOver fill 1.0
  let layer ← layer.sourceOver shadow 0.25
  layer.sourceOver fill 1.0

/-- Paint a caption in the face that has been found for it. -/
def paintText (shaper : Shaper) (face : FontFace) (s : Surface) (caption : Caption) :
    Except SceneError Surface := do
  let how := caption.layout
  let shaped ← shaper.layout face caption.text how.size how.bold
  let line := shaped.paragraph.lineBox
  let anchor : Vec Float :=
    ⟨s.size.x * how.position.x, s.size.y * how.position.y⟩
  let origin := layoutOrigin line how.align how.baseline anchor
  let width := (strokeWidth how.size).toFloat
  let frame := layerFrame line origin (width / 2.0)
  if frame.size.x > 65535.0 || frame.size.y > 65535.0 then return s
  let w := frame.size.x.toUInt16.toNat
  let h := frame.size.y.toUInt16.toNat
  let layer ← captionLayer raster w h
    { face := shaped.face
      runs := shaped.paragraph.runs
      origin := ⟨origin.x - frame.corner.x, origin.y - frame.corner.y⟩
      strokeWidth := width
      bandTop := anchor.y - bandHalf - frame.corner.y
      bandBottom := anchor.y + bandHalf - frame.corner.y }
  return { s with
    data := s.data.overAt s.width s.height layer w h frame.corner.x.toInt64.toInt
      frame.corner.y.toInt64.toInt }

/-- Paint a caption in the best face of the book; without any face nothing is painted. -/
def paint (shaper : Shaper) (book : Book) (family : String) (s : Surface) (caption : Caption) :
    Except SceneError Surface × Book :=
  match book.resolve family caption.layout.bold with
  | (some face, book) => (paintText raster shaper face s caption, book)
  | (none, book) => (.ok s, book)

end

end SceneCanvas.Font
