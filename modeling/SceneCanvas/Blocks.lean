import SceneCanvas.Drawing
import SceneCanvas.Font.Boxes
import SceneCanvas.Sampling

/-!
# A rasterizer of blocks

The rasterizer `Rasterizer.blocks` paints pixels in square blocks, run by run: every pixel of a run
has the colour of the point under its centre, shaded by how much of the pixel is covered. Its glyphs
are boxes, which go by the number of their character.
-/

namespace SceneCanvas

/-! ### Pictures, discs and gradients -/

namespace Picture

/-- The sides of the picture after `map`. -/
def edges (p : Picture) (map : Affine Float) : List Edge :=
  let corner (x y : Float) : Vec Float32 :=
    let v := map.apply ⟨x, y⟩
    ⟨v.x.toFloat32, v.y.toFloat32⟩
  outline [corner 0.0 0.0, corner p.size.x 0.0, corner p.size.x p.size.y, corner 0.0 p.size.y]

/-- The pixels of a run in row `y`, shaded by how much of them the picture covers. -/
def paintRun (p : Picture) (view : View) (y : Nat) (run : PixelRun) : List Pixel :=
  (view.points run.start y run.covered.length).zipWith (fun point covered =>
    if covered = 0 then .transparent else (view.colorAt p point).shade covered) run.covered

/-- A layer of `w` by `h` pixels that shows the picture through `map`. -/
def layer (p : Picture) (map : Affine Float) (w h : Nat) : Buffer :=
  let view := View.through map
  let edges := p.edges map
  let columns := (w + blockSide - 1) / blockSide
  Buffer.ofRows w h fun y =>
    ((runs (coverageRow edges 0 columns y)).flatMap (p.paintRun view y)).toArray

end Picture

/-- A layer of `w` by `h` pixels with a disc on it. -/
def discLayer (center : Vec Float) (radius : Float) (color : Pixel) (w h : Nat) : Buffer :=
  Buffer.ofPixels (w * h) fun i =>
    let dx := Float.ofNat (i % w) + 0.5 - center.x
    let dy := Float.ofNat (i / w) + 0.5 - center.y
    if dx * dx + dy * dy ≤ radius * radius then color else .transparent

/-- The part of the way from one byte to another, to the nearest byte. -/
def blendByte (part : Float) (first last : UInt8) : UInt8 :=
  let way := last.toFloat - first.toFloat
  (first.toFloat + way * part + 0.5).floor.toUInt8

/-- The colour of a row of a gradient from `top` to `bottom`. -/
def gradientPixel (top bottom : Float) (first last : Pixel) (row : Nat) : Pixel :=
  let part := Scalar.clamp 0.0 1.0 ((Float.ofNat row + 0.5 - top) / (bottom - top))
  first.zipWith (blendByte part) last

/-- A layer of `w` by `h` pixels that is filled with a gradient. -/
def gradientLayer (top bottom : Float) (first last : Pixel) (w h : Nat) : Buffer :=
  Buffer.ofPixels (w * h) fun p => gradientPixel top bottom first last (p / w)

/-! ### Glyphs -/

/-- A rectangle of the layer. -/
structure Rect where
  left : Float
  top : Float
  right : Float
  bottom : Float
deriving Repr, Inhabited

namespace Rect

/-- Move every side outwards. -/
def grow (r : Rect) (d : Float) : Rect := ⟨r.left - d, r.top - d, r.right + d, r.bottom + d⟩

/-- Move the rectangle. -/
def shift (r : Rect) (v : Vec Float) : Rect :=
  ⟨r.left + v.x, r.top + v.y, r.right + v.x, r.bottom + v.y⟩

/-- The sides of the rectangle. -/
def edges (r : Rect) : List Edge :=
  let corner (x y : Float) : Vec Float32 := ⟨x.toFloat32, y.toFloat32⟩
  outline [corner r.left r.top, corner r.right r.top, corner r.right r.bottom,
    corner r.left r.bottom]

end Rect

/-- A closed outline, and the rectangle that it lies in. -/
structure Figure where
  bounds : Rect
  edges : List Edge
deriving Repr, Inhabited

namespace Figure

/-- A rectangle that stands at a place. It is filled, or the frame of the given width is laid around
its sides. The inner side of a frame runs the other way round than the outer one. -/
def ofRect (pen : Option Float) (box : Rect) (place : Vec Float) : Figure :=
  match pen with
  | none =>
    let r := box.shift place
    ⟨r, r.edges⟩
  | some width =>
    let outer := (box.grow (width / 2.0)).shift place
    let inner := (box.grow (-(width / 2.0))).shift place
    ⟨outer, outer.edges ++ inner.edges.map fun e => ⟨e.stop, e.start⟩⟩

/-- Paint a figure on a layer of `w` by `h` pixels: every pixel is laid over what is there with the
part of it that the figure covers. -/
def paint (color : Pixel) (w h : Nat) (layer : Buffer) (f : Figure) : Buffer :=
  let top := f.bounds.top.floor.toUInt32.toNat
  let bottom := Nat.min h f.bounds.bottom.ceil.toUInt32.toNat
  let first := f.bounds.left.floor.toUInt32.toNat / blockSide
  let columns := (Nat.min w f.bounds.right.ceil.toUInt32.toNat + blockSide - 1) / blockSide
  (bottom - top).fold (fun j _ layer =>
    let covered := (coverageRow f.edges first columns (top + j)).flatMap (·.covered)
    (covered.zipIdx (first * blockSide)).foldl (fun layer (covered, x) =>
      let p := (top + j) * w + x
      if x < w then layer.setPixel p ((color.shade covered).overFull (layer.pixelAt p))
      else layer) layer) layer

@[simp] theorem size_paint (color : Pixel) (w h : Nat) (layer : Buffer) (f : Figure) :
    (f.paint color w h layer).size = layer.size := by
  rw [paint]
  generalize Nat.min h _ - _ = rows
  induction rows with
  | zero => rfl
  | succ rows ih =>
    rw [Nat.fold_succ, ← ih]
    refine List.foldlRecOn (motive := fun b : Buffer => b.size = _) _ _ rfl fun b hb item _ => ?_
    dsimp only
    split
    next => rw [Buffer.size_setPixel, hb]
    next => exact hb

end Figure

/-- The rectangle that a glyph fills, measured from its origin. -/
def glyphRect? (fontSize : Float32) (id : Nat) : Option Rect :=
  (Font.glyphOf (Char.ofNat id)).box.map fun box =>
    let units (n : Nat) : Float := (Font.toPixels fontSize n).toFloat
    ⟨units box.left, -units box.top, units box.right, -units box.bottom⟩

/-- The figures of some glyphs. The baseline of every glyph is put on a whole pixel. -/
def figures (runs : List GlyphRun) (shift : Vec Float) (pen : Option Float) : List Figure :=
  runs.flatMap fun run => run.glyphs.filterMap fun g =>
    (glyphRect? run.fontSize g.id).map fun box =>
      .ofRect pen box ⟨shift.x + g.origin.x.toFloat, (shift.y + g.origin.y.toFloat).round⟩

/-- A layer of `w` by `h` pixels with glyphs on it. -/
def glyphLayer (runs : List GlyphRun) (shift : Vec Float) (pen : Option Float) (color : Pixel)
    (w h : Nat) : Buffer :=
  (figures runs shift pen).foldl (fun layer f => f.paint color w h layer)
    (Buffer.zeros (4 * (w * h)))

theorem size_glyphLayer (runs : List GlyphRun) (shift : Vec Float) (pen : Option Float)
    (color : Pixel) (w h : Nat) : (glyphLayer runs shift pen color w h).size = 4 * (w * h) := by
  refine List.foldlRecOn (motive := fun b : Buffer => b.size = 4 * (w * h)) _ _
    (Buffer.size_zeros _) fun layer hlayer f _ => ?_
  rw [Figure.size_paint, hlayer]

/-- The rasterizer of blocks. -/
def Rasterizer.blocks : Rasterizer where
  layer
    | .disc center radius color => discLayer center radius color
    | .picture p map => p.layer map
    | .gradient top bottom first last => gradientLayer top bottom first last
    | .glyphs _ runs shift pen color => glyphLayer runs shift pen color
  size_layer drawing w h _ _ := by
    cases drawing with
    | disc => exact Buffer.size_ofPixels ..
    | picture => exact Buffer.size_ofRows ..
    | gradient => exact Buffer.size_ofPixels ..
    | glyphs => exact size_glyphLayer ..

end SceneCanvas
