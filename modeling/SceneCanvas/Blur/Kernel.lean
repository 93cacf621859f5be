import SceneCanvas.Scalar
import SceneCanvas.Error

/-!
# Convolution kernels

A kernel is an odd number of weights in units of `1 / 65536`, the middle one for the pixel itself.
`quantize` turns positive weights of any sum into such a kernel and settles the rounding drift on
the middle weight, so that a kernel neither brightens nor darkens.
-/

namespace SceneCanvas

/-- Weights in units of `1 / Kernel.unit`. -/
abbrev Kernel := Array Nat

namespace Kernel

/-- The total weight of a kernel. -/
def unit : Nat := 65536

/-- Hold an integer between zero and the total weight. -/
def hold (q : Int) : Nat := Nat.min unit q.toNat

/-- The kernel in proportion to `weights`: every weight rounded on its own, and what the rounded
weights lack of the total put on the middle one. -/
@[specialize] def quantize {α : Type} [Scalar α] (weights : Array α) : Kernel :=
  let sum := weights.foldl (· + ·) 0.0
  let parts : Kernel := weights.map fun w =>
    hold (Scalar.truncate (Scalar.round (w / sum * 65536.0)))
  let drift : Int := (unit : Int) - (parts.foldl (· + ·) 0 : Nat)
  parts.modify (parts.size / 2) fun q => hold (q + drift)

/-- The heights of the bell curve of deviation `sigma` at the integers `-radius, …, radius`.

The radius is a plain number here. With signed words of 32 bits `2 * radius + 1` is only formed
without overflow for radii below `2 ^ 30`, which are the ones that this definition describes. The
gaussian blur itself asks for a radius of 6 at most. -/
def bell (radius : Nat) (sigma : Float) : Array Float :=
  let spread := 2.0 * sigma * sigma
  Array.ofFn fun i : Fin (2 * radius + 1) =>
    let x := Float.ofInt ((i.val : Int) - radius)
    Float.exp (-x * x / spread)

/-- The kernel of a gaussian blur. A radius of zero keeps every pixel whatever the deviation. -/
def gaussian (radius : Nat) (sigma : Float32) : Except SceneError Kernel :=
  if radius = 0 then .ok #[unit]
  else if !sigma.isFinite || sigma ≤ 0.0 then .error .kernelDeviation
  else .ok (quantize (bell radius sigma.toFloat))

end Kernel

end SceneCanvas
