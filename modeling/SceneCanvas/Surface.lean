import SceneCanvas.Buffer
import SceneCanvas.Error
import SceneCanvas.Geometry

/-!
# Surfaces

A surface is a premultiplied buffer with a width and a height. `Surface.blank` is the only way in
for a caller that wants the sizes checked; drawing never changes them.
-/

namespace SceneCanvas

/-- A picture of `width` by `height` pixels that is drawn into. -/
structure Surface where
  width : Nat
  height : Nat
  /-- Row-major premultiplied pixels. -/
  data : Buffer
deriving Repr, BEq, DecidableEq, Inhabited

/-- A decoded picture that is drawn from. -/
structure Picture where
  width : Nat
  height : Nat
  /-- Row-major premultiplied pixels. -/
  data : Buffer
deriving Repr, BEq, DecidableEq, Inhabited

namespace Surface

/-- The longest side of a surface. -/
def maxSide : Nat := 65535

/-- The buffer has the length that the sizes call for. -/
def Shaped (s : Surface) : Prop := s.data.size = 4 * (s.width * s.height)

/-- A transparent surface. -/
def blank (width height : Nat) : Except SceneError Surface :=
  if width = 0 ∨ height = 0 then .error .surfaceEmpty
  else if maxSide < width ∨ maxSide < height then .error .surfaceTooLarge
  else .ok ⟨width, height, Buffer.zeros (4 * (width * height))⟩

/-- Make every byte transparent. -/
def clear (s : Surface) : Surface := { s with data := Buffer.zeros s.data.size }

/-- The pixel at `(x, y)`; none outside the surface. -/
def pixel? (s : Surface) (x y : Nat) : Option Pixel :=
  if x < s.width ∧ y < s.height then some (s.data.pixelAt (y * s.width + x)) else none

/-- The size as a vector. -/
def size (s : Surface) : Vec Float := ⟨Float.ofNat s.width, Float.ofNat s.height⟩

/-- The straight pixels of a surface, for writing to an image file. The buffer may be longer than
the sizes call for, but not shorter. -/
def toStraight (s : Surface) : Except SceneError Buffer :=
  if s.data.size < 4 * (s.width * s.height) then .error .surfaceMismatch
  else .ok s.data.unpremultiply

/-- Apply a function to the pixels. -/
@[inline] def mapData (f : Buffer → Buffer) (s : Surface) : Surface := { s with data := f s.data }

end Surface

namespace Picture

/-- The size as a vector. -/
def size (p : Picture) : Vec Float := ⟨Float.ofNat p.width, Float.ofNat p.height⟩

end Picture

end SceneCanvas
