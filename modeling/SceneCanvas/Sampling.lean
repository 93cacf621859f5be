import SceneCanvas.Coverage
import SceneCanvas.Surface

/-!
# Sampling pictures

The colours of a picture at the points that lie under the pixels of a layer. A point falls between
four pixels of the picture and has a mixture of them; a picture that is not scaled, turned or moved
by part of a pixel is read pixel by pixel instead.

The points under a run of pixels are found by steps from the first one. A map that hardly turns
keeps to single precision on its way and stays on one line of the picture; any other map steps in
double precision and rounds every point.
-/

namespace SceneCanvas

namespace Picture

/-- The row or column out of `n` that holds the coordinate `u`: the outermost one beyond the sides,
and the last one for what is not a number. -/
def lineOf (n : Nat) (u : Float32) : Nat :=
  let last : Float32 := Scalar.ofNat n - 0.01
  (Scalar.greater (Scalar.lesser u last) 0.0).toUInt32.toNat

/-- The two rows or columns that a sample at `u` falls between, and the weight out of 255 of the
second one. -/
def neighbours (n : Nat) (u : Float32) : Nat × Nat × Nat :=
  let along := u + 0.5
  let weight := ((along - along.floor) * 255.0 + 0.5).toUInt32.toNat
  (lineOf n (u - 0.5), lineOf n along, weight)

/-- The mixture of two bytes, `weight` out of 255 parts of it the second one. Adding 255 before
the division by 256 makes the mixture of a byte with itself that byte. -/
def mixByte (weight : Nat) (x y : UInt8) : UInt8 :=
  UInt8.ofNat ((x.toNat * (255 - weight) + y.toNat * weight + 255) / 256)

/-- The mixture of the pixels about a point. Beyond the sides the outermost pixels go on. -/
def mixtureAt (p : Picture) (point : Vec Float32) : Pixel :=
  let (x1, x2, fx) := neighbours p.width point.x
  let (y1, y2, fy) := neighbours p.height point.y
  let top := (p.data.pixelAt (y1 * p.width + x1)).zipWith (mixByte fx)
    (p.data.pixelAt (y1 * p.width + x2))
  let bottom := (p.data.pixelAt (y2 * p.width + x1)).zipWith (mixByte fx)
    (p.data.pixelAt (y2 * p.width + x2))
  top.zipWith (mixByte fy) bottom

/-- The pixel that a point lies in, or the outermost one beyond the sides. -/
def nearestAt (p : Picture) (point : Vec Float32) : Pixel :=
  p.data.pixelAt (lineOf p.height point.y * p.width + lineOf p.width point.x)

end Picture

/-- The values `a`, `next a`, `next (next a)` and so on, `n` of them. -/
def steps {α : Type} (next : α → α) : Nat → α → List α
  | 0, _ => []
  | n + 1, a => a :: steps next n (next a)

/-- A number too small to tell from zero: at most one part in 4096. -/
def negligible (v : Float32) : Bool := Scalar.magnitude v ≤ 0.000244140625

/-- How a layer looks up the points of a picture. -/
structure View where
  /-- From the corner of a pixel of the layer to the point under its centre. -/
  back : Affine Float
  /-- Whether the pixels of the picture lie on pixels of the layer. -/
  aligned : Bool
deriving Repr, Inhabited

namespace View

/-- The view of a picture that is shown through `map`. -/
def through (map : Affine Float) : View where
  back := map.inverse * .translate ⟨0.5, 0.5⟩
  aligned :=
    negligible (map.xx.toFloat32 - 1.0) && negligible map.yx.toFloat32
      && negligible map.xy.toFloat32 && negligible (map.yy.toFloat32 - 1.0)
      && negligible (map.dx - map.dx.floor).toFloat32
      && negligible (map.dy - map.dy.floor).toFloat32

/-- The step from a point to the one under the next pixel of the row. -/
def across (v : View) : Vec Float := { v.back with dx := 0.0, dy := 0.0 }.apply ⟨1.0, 0.0⟩

/-- The step from a point to the one under the next pixel of the column. -/
def down (v : View) : Vec Float := { v.back with dx := 0.0, dy := 0.0 }.apply ⟨0.0, 1.0⟩

/-- Whether rows and columns of the layer lie along rows and columns of the picture. -/
def level (v : View) : Bool := negligible v.across.y.toFloat32 && negligible v.down.x.toFloat32

/-- The points under `n` pixels of row `y`, from the pixel `start` on. The points of the first row
of a block are found, and those of the rows below it follow in equal steps. -/
def points (v : View) (start y n : Nat) : List (Vec Float32) :=
  let row := y % blockSide
  let first := v.back.apply ⟨Float.ofNat start, Float.ofNat (y - row)⟩
  let below (p : Vec Float) : Vec Float32 :=
    ⟨p.x.toFloat32 + Scalar.ofNat row * v.down.x.toFloat32,
      p.y.toFloat32 + Scalar.ofNat row * v.down.y.toFloat32⟩
  if v.level then
    let step := v.across.x.toFloat32
    steps (fun p => ⟨p.x + step, p.y⟩) n (below first)
  else
    (steps (fun p => ⟨p.x + v.across.x, p.y + v.across.y⟩) n first).map below

/-- The colour of a picture at a point. -/
def colorAt (v : View) (p : Picture) (point : Vec Float32) : Pixel :=
  if v.aligned then p.nearestAt point else p.mixtureAt point

end View

end SceneCanvas
