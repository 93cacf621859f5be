import SceneCanvas.Geometry

/-!
# Zooming

A zoom shows a window of the scene, magnified to the whole frame and turned about its centre. The
window has the scene's proportions and is centred on a focal point, as far as it can be without
leaving the scene.
-/

namespace SceneCanvas.Script

/-- How a scene is magnified and turned. -/
structure Zoom (α : Type) where
  zoom : α
  degrees : α
  /-- Focal point as a fraction of the scene's size. -/
  focus : Vec α
deriving Repr, BEq, DecidableEq, Inhabited

/-- A rectangle of the scene. -/
structure Window (α : Type) where
  center : Vec α
  size : Vec α
deriving Repr, BEq, DecidableEq, Inhabited

namespace Zoom

variable {α : Type} [Scalar α]

/-- Hold `v` at or below `hi`, and then at or above `lo`, which prevails if the two cross. -/
def within (lo hi v : α) : α := Scalar.greater (Scalar.lesser v hi) lo

/-- The window that a zoom shows. There is none unless the factor is a positive number. -/
def window? (z : Zoom α) (scene : Vec α) : Option (Window α) :=
  if Scalar.isFinite z.zoom && Scalar.lt 0.0 z.zoom then
    let size : Vec α := ⟨scene.x / z.zoom, scene.y / z.zoom⟩
    let center : Vec α :=
      ⟨within (size.x / 2.0) (scene.x - size.x / 2.0) (scene.x * z.focus.x),
        within (size.y / 2.0) (scene.y - size.y / 2.0) (scene.y * z.focus.y)⟩
    some ⟨center, size⟩
  else none

/-- The map that magnifies the window to the frame and turns it by the angle with the given
cosine and sine. -/
def turned? (z : Zoom α) (cos sin : α) (scene : Vec α) : Option (Affine α) :=
  (z.window? scene).map fun window =>
    Affine.translate ⟨scene.x / 2.0, scene.y / 2.0⟩ * Affine.rotate cos sin
      * Affine.scale ⟨z.zoom, z.zoom⟩ * Affine.translate ⟨-window.center.x, -window.center.y⟩

/-- An angle in degrees, in radians. -/
def radians (degrees : Float) : Float := degrees * (3.141592653589793 / 180.0)

/-- The map of a zoom. -/
def transform? (z : Zoom Float) (scene : Vec Float) : Option (Affine Float) :=
  z.turned? (radians z.degrees).cos (radians z.degrees).sin scene

end Zoom

/-- The map moves nothing by more than rounding: every coefficient is within `1e-9` of the
identity's. -/
def isNearIdentity (map : Affine Float) : Bool :=
  (map.coefficients.zip (Affine.identity : Affine Float).coefficients).all fun (x, y) =>
    (x - y).abs < 1e-9

end SceneCanvas.Script
