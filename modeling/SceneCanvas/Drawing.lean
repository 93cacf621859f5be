import SceneCanvas.Asset.File

/-!
# Drawings and rasterizers

A drawing says what a layer is to show, and a rasterizer makes the layer. How outlines become pixels
is the rasterizer's business. Whoever draws relies on one thing alone, that a layer has just the
bytes of its pixels, and so the rest of the library works with any rasterizer.
-/

namespace SceneCanvas

open Asset (FontFace)

/-- A glyph of a face, and where its origin stands. -/
structure PlacedGlyph where
  id : Nat
  origin : Vec Float32
deriving Repr, BEq, DecidableEq, Inhabited

/-- Glyphs of one font size. -/
structure GlyphRun where
  fontSize : Float32
  glyphs : List PlacedGlyph
deriving Repr, BEq, DecidableEq, Inhabited

/-- What a layer shows. -/
inductive Drawing where
  /-- A disc. -/
  | disc (center : Vec Float) (radius : Float) (color : Pixel)
  /-- A picture that is seen through an affine map. -/
  | picture (picture : Picture) (map : Affine Float)
  /-- A gradient that fills the layer. It goes from one colour at the height `top` to another one at
  the height `bottom`, and keeps them beyond. -/
  | gradient (top bottom : Float) (first last : Pixel)
  /-- Glyphs of a face, moved by `shift`. They are filled, or have their outline drawn with a pen of
  some width that rounds the corners. -/
  | glyphs (face : FontFace) (runs : List GlyphRun) (shift : Vec Float) (pen : Option Float)
    (color : Pixel)
deriving Repr, Inhabited

/-- A rasterizer, by the layers that it makes. -/
structure Rasterizer where
  /-- The layer of `w` by `h` pixels that shows a drawing on a transparent ground. -/
  layer : Drawing → (w h : Nat) → Buffer
  /-- A layer has four bytes for each of its pixels. Its sides are counted in sixteen bits. -/
  size_layer : ∀ drawing w h, w ≤ Surface.maxSide → h ≤ Surface.maxSide →
    (layer drawing w h).size = 4 * (w * h)

end SceneCanvas
