import SceneCanvas.Buffer
import SceneCanvas.Error

/-!
# Blending buffers

Source-over and additive blending of whole buffers, of one colour over a buffer, and of a small
buffer placed anywhere on a large one. The source-over operations all apply `Pixel.sourceOver` to
pairs of pixels; they differ only in which pixels they pair.
-/

namespace SceneCanvas.Buffer

/-- The operations that blend two buffers need them equally long and free of partial pixels. -/
def checkSizes (dst src : Nat) (operation : String) : Except SceneError Unit :=
  if dst ≠ src ∨ dst % 4 ≠ 0 then .error (.unequalBuffers operation) else .ok ()

/-- Lay `n` pixels of `src` from pixel `s` on over the pixels of `dst` from pixel `d` on. -/
def overSpan (dst : Buffer) (d : Nat) (src : Buffer) (s n : Nat) (opacity : UInt8) : Buffer :=
  if opacity = 0 then dst
  else n.fold (fun i _ acc =>
    acc.setPixel (d + i) ((src.pixelAt (s + i)).sourceOver opacity (acc.pixelAt (d + i)))) dst

/-- Lay `src` over `dst`, scaled by `opacity`. -/
def sourceOver (dst src : Buffer) (opacity : Float32) : Except SceneError Buffer := do
  checkSizes dst.size src.size "over_in_place"
  return dst.overSpan 0 src 0 dst.pixelCount (Pixel.fractionByte opacity)

/-- Add `src`, scaled by `opacity`, to `dst`, holding every byte at 255. -/
def add (dst src : Buffer) (opacity : Float32) : Except SceneError Buffer := do
  checkSizes dst.size src.size "add_in_place"
  let scale := Pixel.fractionByte opacity
  if scale = 0 then return dst
  return dst.size.fold (fun i _ acc =>
    acc.setIfInBounds i (saturatingAdd (acc.byteAt i) (mul255 (src.byteAt i) scale))) dst

/-- Lay one colour over every pixel. -/
def fillOver (dst : Buffer) (color : Pixel) : Buffer :=
  if color.a = 0 then dst else dst.mapPixels color.overFull

/-- Lay a source of `sw` by `sh` pixels over a destination of `dw` by `dh` pixels, with its top
left corner at `(x, y)`. Each source row is cut to the columns of the destination, and rows above
or below it are skipped. -/
def overAt (dst : Buffer) (dw dh : Nat) (src : Buffer) (sw sh : Nat) (x y : Int) : Buffer :=
  let left := max x 0
  let right := min (x + sw) dw
  if left < right then
    sh.fold (fun row _ acc =>
      let target := y + row
      if 0 ≤ target ∧ target < dh then
        acc.overSpan (target * dw + left).toNat src (row * sw + (left - x)).toNat
          (right - left).toNat 255
      else acc) dst
  else dst

/-- Scale every pixel by a mask of one byte per pixel. -/
def maskWith (layer mask : Buffer) : Buffer :=
  (Nat.min layer.pixelCount mask.size).fold (fun p _ acc =>
    acc.setPixel p ((acc.pixelAt p).map (mul255 · (mask.byteAt p)))) layer

end SceneCanvas.Buffer
