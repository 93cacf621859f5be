import SceneCanvas.Proofs.ExactDouble
import SceneCanvas.Render.Canvas

/-!
# A zoom that moves nothing

A zoom by one that does not turn leaves every canvas alone, wherever it looks. On doubles this is
not for want of rounding errors but because none occur: the numbers on the way are whole or half
numbers below `2 ^ 53`, and `IsShift` says that the factors of the map, and so their product, are
exact. The focal point plays no part, even if it is infinite or not a number at all, as the bounds
between which the centre of the window is held are the same.

The cosine and the sine of an angle are computed outside of this library. `Canvas.zoomWith` takes
them as given; the angle is zero here, where it is enough to know that the cosine is one and that
the sine hands zero on.
-/

namespace SceneCanvas

open Scalar (valueOf? valueOf?_zero valueOf?_one valueOf?_two Representable)

/-! ### Shifts -/

/-- A map that neither scales nor turns, and how far it shifts. -/
structure IsShift (map : Affine Float) (across down : Rat) : Prop where
  xx : valueOf? map.xx = some 1
  yx : valueOf? map.yx = some 0
  xy : valueOf? map.xy = some 0
  yy : valueOf? map.yy = some 1
  dx : valueOf? map.dx = some across
  dy : valueOf? map.dy = some down

namespace IsShift

theorem translate {v : Vec Float} {across down : Rat} (hx : valueOf? v.x = some across)
    (hy : valueOf? v.y = some down) : IsShift (Affine.translate v) across down :=
  ⟨valueOf?_one, valueOf?_zero, valueOf?_zero, valueOf?_one, hx, hy⟩

theorem scale {v : Vec Float} (hx : valueOf? v.x = some 1) (hy : valueOf? v.y = some 1) :
    IsShift (Affine.scale v) 0 0 :=
  ⟨hx, valueOf?_zero, valueOf?_zero, hy, valueOf?_zero, valueOf?_zero⟩

theorem rotate {cos sin : Float} (hcos : valueOf? cos = some 1) (hsin : valueOf? sin = some 0) :
    IsShift (Affine.rotate cos sin) 0 0 := by
  have hneg := Scalar.valueOf?_neg hsin
  rw [neg_zero] at hneg
  exact ⟨hcos, hsin, hneg, hcos, valueOf?_zero, valueOf?_zero⟩

section

variable {x y u v : Float} {b d : Rat} (hy : valueOf? y = some b) (hv : valueOf? v = some d)

include hy hv

/-- The first row of a shift picks the first number of a column. -/
theorem row_first (hx : valueOf? x = some 1) (hu : valueOf? u = some 0) (hb : Representable b) :
    valueOf? (x * y + u * v) = some b := by
  have hproduct : valueOf? (x * y) = some b := by
    simpa only [one_mul] using Scalar.valueOf?_mul hx hy (by rwa [one_mul])
  have hproduct' : valueOf? (u * v) = some 0 := by
    simpa only [zero_mul] using
      Scalar.valueOf?_mul hu hv (by rw [zero_mul]; exact Scalar.representable_zero)
  simpa only [add_zero] using Scalar.valueOf?_add hproduct hproduct' (by rwa [add_zero])

/-- The second row of a shift picks the second one. -/
theorem row_second (hx : valueOf? x = some 0) (hu : valueOf? u = some 1) (hd : Representable d) :
    valueOf? (x * y + u * v) = some d := by
  have hproduct : valueOf? (x * y) = some 0 := by
    simpa only [zero_mul] using
      Scalar.valueOf?_mul hx hy (by rw [zero_mul]; exact Scalar.representable_zero)
  have hproduct' : valueOf? (u * v) = some d := by
    simpa only [one_mul] using Scalar.valueOf?_mul hu hv (by rwa [one_mul])
  simpa only [zero_add] using Scalar.valueOf?_add hproduct hproduct' (by rwa [zero_add])

end

/-- **One shift after another** shifts by the sum, as long as nothing is rounded. -/
theorem mul {a b : Affine Float} {across down across' down' : Rat} (ha : IsShift a across down)
    (hb : IsShift b across' down') (hacross : Representable across') (hdown : Representable down')
    (hx : Representable (across' + across)) (hy : Representable (down' + down)) :
    IsShift (a * b) (across' + across) (down' + down) where
  xx := row_first hb.xx hb.yx ha.xx ha.xy Scalar.representable_one
  yx := row_second hb.xx hb.yx ha.yx ha.yy Scalar.representable_zero
  xy := row_first hb.xy hb.yy ha.xx ha.xy Scalar.representable_zero
  yy := row_second hb.xy hb.yy ha.yx ha.yy Scalar.representable_one
  dx := Scalar.valueOf?_add (row_first hb.dx hb.dy ha.xx ha.xy hacross) ha.dx hx
  dy := Scalar.valueOf?_add (row_second hb.dx hb.dy ha.yx ha.yy hdown) ha.dy hy

/-- A factor that shifts nothing. -/
theorem mul_still {a b : Affine Float} {across down : Rat} (ha : IsShift a across down)
    (hb : IsShift b 0 0) (hx : Representable across) (hy : Representable down) :
    IsShift (a * b) across down := by
  simpa only [zero_add] using ha.mul hb Scalar.representable_zero Scalar.representable_zero
    (by rwa [zero_add]) (by rwa [zero_add])

end IsShift

namespace Script

/-- Numbers of one value differ by less than any bound. -/
theorem abs_sub_lt {x y : Float} {a : Rat} (hx : valueOf? x = some a) (hy : valueOf? y = some a) :
    (x - y).abs < 1e-9 := by
  have hdiff := Scalar.valueOf?_sub hx hy (by rw [sub_self]; exact Scalar.representable_zero)
  have habs := Scalar.valueOf?_abs hdiff
  rw [sub_self, abs_zero] at habs
  obtain ⟨q, hq⟩ : ∃ q, valueOf? 1e-9 = some q :=
    Option.isSome_iff_exists.mp (by decide)
  have hpos : (0.0 : Float) < 1e-9 := by decide
  rw [Scalar.lt_iff habs hq]
  exact (Scalar.lt_iff valueOf?_zero hq).mp hpos

/-- A shift by nothing moves nothing. -/
theorem isNearIdentity_of_isShift {map : Affine Float} (h : IsShift map 0 0) :
    isNearIdentity map = true := by
  rw [isNearIdentity, Affine.coefficients, Affine.coefficients]
  simp only [List.zip_cons_cons, List.zip_nil_right, List.all_cons, List.all_nil, Bool.and_true,
    Bool.and_eq_true, decide_eq_true_eq]
  exact ⟨abs_sub_lt h.xx valueOf?_one, abs_sub_lt h.yx valueOf?_zero,
    abs_sub_lt h.xy valueOf?_zero, abs_sub_lt h.yy valueOf?_one, abs_sub_lt h.dx valueOf?_zero,
    abs_sub_lt h.dy valueOf?_zero⟩

namespace Zoom

/-- Held between bounds of one value, any double takes this value, even one that has none itself. -/
theorem valueOf?_within {lo hi : Float} {a : Rat} (hlo : valueOf? lo = some a)
    (hhi : valueOf? hi = some a) (v : Float) : valueOf? (within lo hi v) = some a := by
  have hgreater : Scalar.greater hi lo = lo ∨ Scalar.greater hi lo = hi := by
    rw [Scalar.greater]
    split
    next => exact .inl rfl
    next => split <;> simp
  have hheld : valueOf? (Scalar.greater hi lo) = some a := by
    obtain heq | heq := hgreater <;> rwa [heq]
  rw [within, Scalar.lesser]
  split
  next => exact hheld
  next hnumber =>
    split
    next => exact hheld
    next hhigh =>
      -- neither above the one bound nor below the other, the double lies where they meet
      rw [Scalar.greater, if_neg hnumber]
      split
      next => exact hlo
      next hlow =>
        obtain ⟨c, hc, hle, hle'⟩ := Scalar.exists_valueOf?_of_not_lt hlo hhi
          (Bool.eq_false_iff.mpr hnumber) (fun hlt => hlow (decide_eq_true hlt))
          (fun hlt => hhigh (decide_eq_true hlt))
        rw [hc, le_antisymm hle' hle]

/-- Along one side, the window of a zoom by one is centred, wherever the zoom looks. -/
theorem valueOf?_center {side focus : Float} {n : Nat} (hside : valueOf? side = some n)
    (hn : n < 2 ^ 53) : valueOf? (within (side / 1.0 / 2.0) (side - side / 1.0 / 2.0)
      (side * focus)) = some (n / 2 : Rat) := by
  have hhalf := Scalar.representable_natCast_div_two hn
  have hwhole : valueOf? (side / 1.0) = some (n / 1 : Rat) :=
    Scalar.valueOf?_div hside valueOf?_one one_ne_zero
      (by rw [div_one]; exact Scalar.representable_natCast hn)
  rw [div_one] at hwhole
  have hlo : valueOf? (side / 1.0 / 2.0) = some (n / 2 : Rat) :=
    Scalar.valueOf?_div hwhole valueOf?_two two_ne_zero hhalf
  have hhi := Scalar.valueOf?_sub hside hlo (by rwa [sub_half])
  rw [sub_half] at hhi
  exact valueOf?_within hlo hhi _

section

variable {z : Zoom Float} {scene : Vec Float} {width height : Nat} (hzoom : z.zoom = 1.0)
  (hx : valueOf? scene.x = some width) (hy : valueOf? scene.y = some height)
  (hwidth : width < 2 ^ 53) (hheight : height < 2 ^ 53)

include hzoom hx hy hwidth hheight

theorem exists_centered_window? : ∃ window, z.window? scene = some window ∧
    valueOf? window.center.x = some (width / 2 : Rat) ∧
    valueOf? window.center.y = some (height / 2 : Rat) := by
  have hcondition : (Scalar.isFinite z.zoom && Scalar.lt 0.0 z.zoom) = true := by
    rw [hzoom]
    decide
  rw [window?, if_pos hcondition, hzoom]
  exact ⟨_, rfl, valueOf?_center hx hwidth, valueOf?_center hy hheight⟩

/-- **A zoom by one that does not turn** is a shift by nothing. -/
theorem exists_turned?_isShift {cos sin : Float} (hcos : valueOf? cos = some 1)
    (hsin : valueOf? sin = some 0) :
    ∃ map, z.turned? cos sin scene = some map ∧ IsShift map 0 0 := by
  obtain ⟨window, hwindow, hcx, hcy⟩ := exists_centered_window? hzoom hx hy hwidth hheight
  have hhalf := Scalar.representable_natCast_div_two hwidth
  have hhalf' := Scalar.representable_natCast_div_two hheight
  have hcenter : IsShift (Affine.translate ⟨scene.x / 2.0, scene.y / 2.0⟩) (width / 2)
      (height / 2) :=
    .translate (Scalar.valueOf?_div hx valueOf?_two two_ne_zero hhalf)
      (Scalar.valueOf?_div hy valueOf?_two two_ne_zero hhalf')
  have hone : valueOf? z.zoom = some 1 := by rw [hzoom, valueOf?_one]
  have hscale : IsShift (Affine.scale ⟨z.zoom, z.zoom⟩) 0 0 := .scale hone hone
  have hback : IsShift (Affine.translate ⟨-window.center.x, -window.center.y⟩) (-(width / 2))
      (-(height / 2)) :=
    .translate (Scalar.valueOf?_neg hcx) (Scalar.valueOf?_neg hcy)
  have hturned := (hcenter.mul_still (.rotate hcos hsin) hhalf hhalf').mul_still hscale hhalf hhalf'
  -- the first factor and the last one shift by the same, to and fro
  have hstill (q : Rat) : Representable (-q + q) := by
    rw [neg_add_cancel]
    exact Scalar.representable_zero
  have hmap := hturned.mul hback hhalf.neg hhalf'.neg (hstill _) (hstill _)
  rw [neg_add_cancel, neg_add_cancel] at hmap
  rw [turned?, hwindow]
  exact ⟨_, rfl, hmap⟩

end

end Zoom

end Script

namespace Render.Canvas

open Script (Zoom isNearIdentity)

/-- `Canvas.zoom`, given how the cosine and the sine of an angle are computed. -/
def zoomWith (cos sin : Float → Float) (raster : Rasterizer) (c : Canvas) (z : Zoom Float) :
    Outcome :=
  let angle := Zoom.radians z.degrees
  match z.turned? (cos angle) (sin angle) c.surface.size with
  | none => c.done
  | some map =>
    if isNearIdentity map then c.done
    else c.replaceSurface c.surface.clear (c.surface.redraw raster map)

theorem zoom_eq_zoomWith (raster : Rasterizer) (c : Canvas) (z : Zoom Float) :
    c.zoom raster z = c.zoomWith Float.cos Float.sin raster z := rfl

/-- Zero is an angle without a turn: its cosine is one and its sine is zero of the same sign. -/
structure StartsAtZero (cos sin : Float → Float) : Prop where
  cos_zero : cos 0.0 = 1.0
  cos_neg_zero : cos (-0.0) = 1.0
  sin_zero : sin 0.0 = 0.0
  sin_neg_zero : sin (-0.0) = -0.0

/-- **A zoom by one that does not turn leaves the canvas alone**, wherever it looks. -/
theorem zoomWith_eq_done {cos sin : Float → Float} (hangle : StartsAtZero cos sin)
    (raster : Rasterizer) {c : Canvas} {z : Zoom Float} (hwidth : c.surface.width < 2 ^ 53)
    (hheight : c.surface.height < 2 ^ 53) (hzoom : z.zoom = 1.0)
    (hdegrees : z.degrees = 0.0 ∨ z.degrees = -0.0) : c.zoomWith cos sin raster z = c.done := by
  have hvalues : valueOf? (cos (Zoom.radians z.degrees)) = some 1 ∧
      valueOf? (sin (Zoom.radians z.degrees)) = some 0 := by
    obtain hzero | hzero := hdegrees
    · have hradians : Zoom.radians 0.0 = 0.0 := by decide
      rw [hzero, hradians, hangle.cos_zero, hangle.sin_zero]
      exact ⟨valueOf?_one, valueOf?_zero⟩
    · have hradians : Zoom.radians (-0.0) = -0.0 := by decide
      have hneg := Scalar.valueOf?_neg valueOf?_zero
      rw [neg_zero] at hneg
      rw [hzero, hradians, hangle.cos_neg_zero, hangle.sin_neg_zero]
      exact ⟨valueOf?_one, hneg⟩
  have hx : valueOf? c.surface.size.x = some (c.surface.width : Rat) :=
    Scalar.valueOf?_natCast hwidth
  have hy : valueOf? c.surface.size.y = some (c.surface.height : Rat) :=
    Scalar.valueOf?_natCast hheight
  obtain ⟨map, hmap, hshift⟩ :=
    Zoom.exists_turned?_isShift hzoom hx hy hwidth hheight hvalues.1 hvalues.2
  rw [zoomWith, hmap]
  exact if_pos (Script.isNearIdentity_of_isShift hshift)

end Render.Canvas

end SceneCanvas
