import Mathlib.Tactic.NormNum.OfScientific
import Mathlib.Tactic.Ring
import Mathlib.Algebra.Order.Group.Pointwise.Interval
import Mathlib.Algebra.Order.Ring.Rat
import SceneCanvas.Geometry

/-!
# Affine maps of exact numbers

What the maps of the plane do to points when nothing is rounded. A product does its factors from
right to left, and each of the factors that pictures are placed with works on the axes one by one.
-/

namespace SceneCanvas

/-- The points of the upright rectangle with the given upper left corner and size. -/
def Vec.rectangle (corner size : Vec Rat) : Set (Vec Rat) :=
  {p | p.x ∈ Set.Icc corner.x (corner.x + size.x) ∧ p.y ∈ Set.Icc corner.y (corner.y + size.y)}

namespace Affine

theorem apply_mul (a b : Affine Rat) (p : Vec Rat) : (a * b).apply p = a.apply (b.apply p) := by
  change (Affine.mul a b).apply p = _
  simp only [apply, Affine.mul, Vec.mk.injEq]
  constructor
  · ring
  · ring

theorem apply_translate (v p : Vec Rat) : (translate v).apply p = ⟨p.x + v.x, p.y + v.y⟩ := by
  simp only [apply, translate, Vec.mk.injEq]
  constructor
  · norm_num
  · norm_num

theorem apply_scale (v p : Vec Rat) : (scale v).apply p = ⟨v.x * p.x, v.y * p.y⟩ := by
  simp only [apply, scale, Vec.mk.injEq]
  constructor
  · norm_num
  · norm_num

end Affine

/-- A map that works on each axis by itself maps rectangles axis by axis. -/
theorem image_rectangle {map : Vec Rat → Vec Rat} {across down : Rat → Rat}
    (hmap : ∀ p, map p = ⟨across p.x, down p.y⟩) {corner corner' size size' : Vec Rat}
    (hx : across '' Set.Icc corner.x (corner.x + size.x)
      = Set.Icc corner'.x (corner'.x + size'.x))
    (hy : down '' Set.Icc corner.y (corner.y + size.y)
      = Set.Icc corner'.y (corner'.y + size'.y)) :
    map '' Vec.rectangle corner size = Vec.rectangle corner' size' := by
  ext q
  rw [Vec.rectangle, Vec.rectangle, ← hx, ← hy]
  constructor
  · rintro ⟨p, ⟨hpx, hpy⟩, rfl⟩
    rw [hmap p]
    exact ⟨⟨p.x, hpx, rfl⟩, ⟨p.y, hpy, rfl⟩⟩
  · rintro ⟨⟨x, hpx, hqx⟩, ⟨y, hpy, hqy⟩⟩
    refine ⟨⟨x, y⟩, ⟨hpx, hpy⟩, ?_⟩
    rw [hmap, hqx, hqy]

end SceneCanvas
