import SceneCanvas.Blur.Exact
import SceneCanvas.Blur.Box

/-!
# Gaussian blur

`Buffer.gaussianBlur` picks the exact kernel for small deviations and box passes for large ones.
`Buffer.paddedBlur` keeps the edges of a picture from fading: it blurs a picture that has been
grown by the reach of the blur, its border stretched outwards, and cuts the middle out again.
-/

namespace SceneCanvas

/-- The distance at which a gaussian of deviation `sigma` has become negligible. -/
def blurReach (sigma : Float32) : Nat :=
  (Scalar.greater (Scalar.ceil (3.0 * sigma)) 0.0).toUInt32.toNat

namespace Buffer

/-- From this deviation on a blur is made of box passes. -/
def boxDeviation : Float32 := 2.0

/-- Blur by the three box passes for `sigma` along each axis, and round to bytes at the end. -/
def boxBlur (src : Buffer) (w h : Nat) (passes : List BoxPass) : Buffer :=
  let values : Array Float := src.map Scalar.ofByte
  let blurred := BoxPass.columns passes (BoxPass.rows passes values w h) w h
  blurred.map fun v => Scalar.toByte (Scalar.clamp 0.0 255.0 (Scalar.round v))

/-- Whether a window can be slid over `n` samples with its far end counted in 64-bit words. -/
def slides (n : Nat) (pass : BoxPass) : Bool := n == 0 || n - 1 + pass.size < Word.count64

/-- Gaussian blur of deviation `sigma` of a buffer of `w` by `h` pixels. Samples outside the
buffer count as transparent. -/
def gaussianBlur (src : Buffer) (w h : Nat) (sigma : Float32) : Except SceneError Buffer :=
  if !sigma.isFinite || sigma < 0.0 then .error .blurDeviation
  else if sigma < boxDeviation then
    src.exactBlur w h (blurReach sigma) (Scalar.greater sigma 0.1)
  else if Word.count64 ≤ w * h * 4 then .error .wordOverflow
  else if src.size ≠ w * h * 4 then .error .gaussianLength
  else
    let passes := BoxPass.triple (BoxPass.sizeFor sigma)
    if src.isEmpty || passes.all fun pass => slides w pass && slides h pass then
      .ok (src.boxBlur w h passes)
    else .error .wordOverflow

/-- Where the position `i` of a line grown by `pad` on both sides lies in the line of `n`
samples: positions in the border belong to the nearest sample. -/
def clampIndex (n pad i : Nat) : Nat := Nat.min (i - pad) (n - 1)

/-- A picture of `w` by `h` pixels grown by `pad` on every side, the border filled with the
nearest pixel of the picture. -/
def padEdges (src : Buffer) (w h pad : Nat) : Buffer :=
  let pw := w + 2 * pad
  ofPixels (pw * (h + 2 * pad)) fun p =>
    src.pixelAt (clampIndex h pad (p / pw) * w + clampIndex w pad (p % pw))

/-- The `w` by `h` pixels that lie `pad` pixels inside a buffer of row length `sw`. -/
def crop (src : Buffer) (sw pad w h : Nat) : Buffer :=
  ofPixels (w * h) fun p => src.pixelAt ((p / w + pad) * sw + pad + p % w)

/-- Gaussian blur of deviation `pixels` that does not fade towards the edges. `adjust` is run on
the grown picture after the blur.

The sides of the grown picture are plain numbers here. They stand for words of 32 bits as long as
they are below `2 ^ 32`. A surface is at most 65535 pixels wide and high, and no directive asks for
a deviation of more than 128, so theirs are; a call for a wider picture or a larger deviation may
overflow those words, and is not described by this definition. -/
def paddedBlur (src : Buffer) (w h : Nat) (pixels : UInt32) (adjust : Buffer → Buffer) :
    Except SceneError Buffer := do
  let sigma := pixels.toFloat32
  let pad := blurReach sigma
  let pw := w + 2 * pad
  let blurred ← (src.padEdges w h pad).gaussianBlur pw (h + 2 * pad) sigma
  return (adjust blurred).crop pw pad w h

end Buffer

end SceneCanvas
