import Mathlib.Algebra.Order.Archimedean.Real.Basic
import Mathlib.Analysis.Real.Sqrt
import Mathlib.Tactic.Linarith
import Mathlib.Tactic.NormNum.OfScientific
import SceneCanvas.Geometry

/-!
# The real plane

Exact arithmetic with all real numbers, so that maps can turn by any angle and points have a
distance. The factors that maps are made of do to points what their names say, a product does them
from right to left, and no two maps do the same to all points (`RealPlane.apply_injective`).
-/

namespace SceneCanvas

/-- Exact arithmetic with real numbers. -/
noncomputable instance : Scalar ℝ where
  ofNat n := n
  ofByte b := b.toNat
  lt x y := decide (x < y)
  isNaN _ := false
  isFinite _ := true
  floor x := ⌊x⌋
  ceil x := ⌈x⌉
  round x := if x < 0 then -(round (-x) : ℝ) else round x
  truncate x := if x < 0 then ⌈x⌉ else ⌊x⌋
  toByte x := UInt8.ofNat (min 255 ⌊x⌋₊)
  single x := x

namespace RealPlane

/-- The distance of two points. -/
noncomputable def distance (p q : Vec ℝ) : ℝ := √((p.x - q.x) ^ 2 + (p.y - q.y) ^ 2)

/-- A point is nearer if it is nearer on one axis and no further on the other. -/
theorem distance_lt {p q r : Vec ℝ} (hx : |p.x - q.x| ≤ |p.x - r.x|)
    (hy : |p.y - q.y| ≤ |p.y - r.y|)
    (hlt : |p.x - q.x| < |p.x - r.x| ∨ |p.y - q.y| < |p.y - r.y|) :
    distance p q < distance p r := by
  refine Real.sqrt_lt_sqrt (by positivity) ?_
  have hx' := sq_le_sq.mpr hx
  have hy' := sq_le_sq.mpr hy
  obtain hlt | hlt := hlt
  · have := sq_lt_sq.mpr hlt
    linarith
  · have := sq_lt_sq.mpr hlt
    linarith

theorem apply_mul (a b : Affine ℝ) (p : Vec ℝ) : (a * b).apply p = a.apply (b.apply p) := by
  change (Affine.mul a b).apply p = _
  simp only [Affine.apply, Affine.mul, Vec.mk.injEq]
  constructor
  · ring
  · ring

theorem apply_translate (v p : Vec ℝ) :
    (Affine.translate v).apply p = ⟨p.x + v.x, p.y + v.y⟩ := by
  simp only [Affine.apply, Affine.translate, Vec.mk.injEq]
  constructor
  · norm_num
  · norm_num

theorem apply_scale (v p : Vec ℝ) : (Affine.scale v).apply p = ⟨v.x * p.x, v.y * p.y⟩ := by
  simp only [Affine.apply, Affine.scale, Vec.mk.injEq]
  constructor
  · norm_num
  · norm_num

theorem apply_rotate (cos sin : ℝ) (p : Vec ℝ) :
    (Affine.rotate cos sin).apply p = ⟨cos * p.x - sin * p.y, sin * p.x + cos * p.y⟩ := by
  simp only [Affine.apply, Affine.rotate, Vec.mk.injEq]
  constructor
  · norm_num
    ring
  · norm_num

theorem apply_identity (p : Vec ℝ) : (Affine.identity : Affine ℝ).apply p = p := by
  simp only [Affine.apply, Affine.identity]
  norm_num

/-- A map is determined by what it does to points. -/
theorem apply_injective : Function.Injective (Affine.apply : Affine ℝ → Vec ℝ → Vec ℝ) := by
  intro a b h
  have horigin := congrFun h ⟨0, 0⟩
  have hacross := congrFun h ⟨1, 0⟩
  have hdown := congrFun h ⟨0, 1⟩
  cases a
  cases b
  simp only [Affine.apply, Vec.mk.injEq, mul_zero, mul_one, zero_add, add_zero] at *
  obtain ⟨rfl, rfl⟩ := horigin
  simp only [add_left_inj] at hacross hdown
  simp only [hacross, hdown]

end RealPlane

end SceneCanvas
