import SceneCanvas.Blur.Kernel
import SceneCanvas.Buffer
import SceneCanvas.Scalar

/-!
# Exact blur

The two-pass convolution of a pixel buffer with a kernel: first along the rows, then along the
columns, rounding to bytes after each pass. Samples outside the buffer count as transparent, that
is, their taps are skipped.
-/

namespace SceneCanvas

/-- The weighted sum, at position `x` of a line of `n` samples, of the samples under the kernel. -/
@[specialize] def Kernel.sumAt (k : Kernel) (n : Nat) (sample : Nat → Nat) (x : Nat) : Nat :=
  let radius := k.size / 2
  k.size.fold (fun j h acc =>
    if radius ≤ x + j ∧ x + j < radius + n then
      acc + k[j] * sample (x + j - radius)
    else acc) 0

/-- A weighted sum as a byte: the nearest multiple of the kernel unit, held at 255. -/
def Kernel.toByte (acc : Nat) : UInt8 :=
  UInt8.ofNat (Nat.min 255 ((acc + Kernel.unit / 2) / Kernel.unit))

namespace Buffer

/-- Convolve every row of a buffer of `w` by `h` pixels. -/
def convolveRows (src : Buffer) (w h : Nat) (k : Kernel) : Buffer :=
  ofBytes (w * h * 4) fun i =>
    let row := i / 4 / w
    Kernel.toByte (k.sumAt w (fun x => (src.byteAt ((row * w + x) * 4 + i % 4)).toNat)
      (i / 4 % w))

/-- Convolve every column of a buffer of `w` by `h` pixels. -/
def convolveColumns (src : Buffer) (w h : Nat) (k : Kernel) : Buffer :=
  ofBytes (w * h * 4) fun i =>
    let column := i / 4 % w
    Kernel.toByte (k.sumAt h (fun y => (src.byteAt ((y * w + column) * 4 + i % 4)).toNat)
      (i / 4 / w))

/-- Convolve along both axes. -/
def convolve (src : Buffer) (w h : Nat) (k : Kernel) : Buffer :=
  (src.convolveRows w h k).convolveColumns w h k

/-- Gaussian blur of a buffer of `w` by `h` pixels with the kernel of the given radius and
deviation. -/
def exactBlur (src : Buffer) (w h radius : Nat) (sigma : Float32) : Except SceneError Buffer :=
  if Word.count64 ≤ w * h * 4 then .error .blurSize
  else if src.size ≠ w * h * 4 then .error .blurLength
  else if radius = 0 then .ok src
  else return src.convolve w h (← Kernel.gaussian radius sigma)

end Buffer

end SceneCanvas
