import SceneCanvas.Scalar

/-!
# Plane geometry

Points and affine maps over any `Scalar`. A map sends `(x, y)` to
`(xx * x + xy * y + dx, yx * x + yy * y + dy)`; composition applies its right operand first. The
order of the additions in a product is fixed, because rounded arithmetic can tell orders apart.
-/

namespace SceneCanvas

/-- A pair of coordinates, or a size, or a pair of per-axis factors. -/
structure Vec (α : Type) where
  x : α
  y : α
deriving Repr, BEq, DecidableEq, Inhabited

/-- An affine map of the plane: a linear part and a shift. -/
structure Affine (α : Type) where
  xx : α
  yx : α
  xy : α
  yy : α
  dx : α
  dy : α
deriving Repr, BEq, DecidableEq, Inhabited

namespace Affine

variable {α : Type} [Scalar α]

/-- The map that moves nothing. -/
def identity : Affine α := ⟨1.0, 0.0, 0.0, 1.0, 0.0, 0.0⟩

/-- Shift by a vector. -/
def translate (v : Vec α) : Affine α := ⟨1.0, 0.0, 0.0, 1.0, v.x, v.y⟩

/-- Scale each axis by its own factor. -/
def scale (v : Vec α) : Affine α := ⟨v.x, 0.0, 0.0, v.y, 0.0, 0.0⟩

/-- Turn about the origin by the angle with the given cosine and sine. -/
def rotate (cos sin : α) : Affine α := ⟨cos, sin, -sin, cos, 0.0, 0.0⟩

/-- First `b`, then `a`. -/
protected def mul (a b : Affine α) : Affine α where
  xx := a.xx * b.xx + a.xy * b.yx
  yx := a.yx * b.xx + a.yy * b.yx
  xy := a.xx * b.xy + a.xy * b.yy
  yy := a.yx * b.xy + a.yy * b.yy
  dx := a.xx * b.dx + a.xy * b.dy + a.dx
  dy := a.yx * b.dx + a.yy * b.dy + a.dy

instance : Mul (Affine α) := ⟨Affine.mul⟩

/-- The image of a point. -/
def apply (a : Affine α) (p : Vec α) : Vec α :=
  ⟨a.xx * p.x + a.xy * p.y + a.dx, a.yx * p.x + a.yy * p.y + a.dy⟩

/-- The determinant of the linear part. -/
def determinant (a : Affine α) : α := a.xx * a.yy - a.yx * a.xy

/-- The map that undoes `a`, where the determinant is not zero. -/
def inverse (a : Affine α) : Affine α :=
  let s := 1.0 / a.determinant
  { xx := s * a.yy
    yx := -s * a.yx
    xy := -s * a.xy
    yy := s * a.xx
    dx := s * (a.xy * a.dy - a.yy * a.dx)
    dy := s * (a.yx * a.dx - a.xx * a.dy) }

/-- The six coefficients, column by column. -/
def coefficients (a : Affine α) : List α := [a.xx, a.yx, a.xy, a.yy, a.dx, a.dy]

end Affine

end SceneCanvas
