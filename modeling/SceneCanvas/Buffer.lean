import SceneCanvas.Pixel

/-!
# Byte buffers

A buffer is a row-major run of pixels, four bytes each. Buffers come from outside as plain bytes,
so a length need not be a multiple of four: `pixelAt` is the view of a buffer as pixels, and the
operations here leave the bytes of an incomplete last pixel as they are.

Reading beyond the end gives zero bytes and writing there changes nothing, so every operation is
total; each one states the lengths for which this does not come into play.
-/

namespace SceneCanvas

/-- A run of bytes, read as pixels of four bytes. -/
abbrev Buffer := Array UInt8

namespace Buffer

/-- The byte at `i`, zero beyond the end. -/
@[inline] def byteAt (b : Buffer) (i : Nat) : UInt8 := b.getD i 0

/-- The `p`-th pixel. -/
@[inline] def pixelAt (b : Buffer) (p : Nat) : Pixel :=
  ⟨b.byteAt (4 * p), b.byteAt (4 * p + 1), b.byteAt (4 * p + 2), b.byteAt (4 * p + 3)⟩

/-- The number of complete pixels. -/
@[inline] def pixelCount (b : Buffer) : Nat := b.size / 4

/-- Replace the `p`-th pixel. -/
@[inline] def setPixel (b : Buffer) (p : Nat) (q : Pixel) : Buffer :=
  (((b.setIfInBounds (4 * p) q.r).setIfInBounds (4 * p + 1) q.g).setIfInBounds (4 * p + 2)
    q.b).setIfInBounds (4 * p + 3) q.a

/-- Append a pixel. -/
@[inline] def pushPixel (b : Buffer) (q : Pixel) : Buffer :=
  (((b.push q.r).push q.g).push q.b).push q.a

/-- The buffer of the pixels `f 0, …, f (n - 1)`. -/
@[specialize] def ofPixels (n : Nat) (f : Nat → Pixel) : Buffer :=
  n.fold (fun p _ b => b.pushPixel (f p)) (Array.emptyWithCapacity (4 * n))

/-- The buffer of the first `w` pixels of the rows `row 0, …, row (h - 1)`; a pixel that a row lacks
is transparent. -/
@[specialize] def ofRows (w h : Nat) (row : Nat → Array Pixel) : Buffer :=
  h.fold (fun y _ b =>
    let pixels := row y
    w.fold (fun x _ b => b.pushPixel (pixels.getD x .transparent)) b)
    (Array.emptyWithCapacity (4 * (w * h)))

/-- The buffer of the bytes `f 0, …, f (n - 1)`. -/
@[specialize] def ofBytes (n : Nat) (f : Nat → UInt8) : Buffer :=
  Array.ofFn (fun i : Fin n => f i)

/-- A buffer of `n` zero bytes. -/
def zeros (n : Nat) : Buffer := Array.replicate n 0

/-- Apply a function to every complete pixel. -/
@[specialize] def mapPixels (f : Pixel → Pixel) (b : Buffer) : Buffer :=
  b.pixelCount.fold (fun p _ acc => acc.setPixel p (f (acc.pixelAt p))) b

/-- Every complete pixel is premultiplied. -/
def Premultiplied (b : Buffer) : Prop := ∀ p < b.pixelCount, (b.pixelAt p).Premultiplied

/-- The premultiplied form of straight pixels. -/
def premultiply (b : Buffer) : Buffer := b.mapPixels Pixel.premultiply

/-- The straight form of premultiplied pixels. -/
def unpremultiply (b : Buffer) : Buffer := b.mapPixels Pixel.unpremultiply

/-! ### Sizes -/

@[simp] theorem size_setPixel (b : Buffer) (p : Nat) (q : Pixel) :
    (b.setPixel p q).size = b.size := by
  simp [setPixel]

@[simp] theorem size_pushPixel (b : Buffer) (q : Pixel) : (b.pushPixel q).size = b.size + 4 := by
  simp [pushPixel]

/-- Appending pixels makes a buffer longer by four bytes each. -/
theorem size_fold_pushPixel (n : Nat) (f : Nat → Pixel) (b : Buffer) :
    (n.fold (fun p _ (b : Buffer) => b.pushPixel (f p)) b).size = b.size + 4 * n := by
  induction n with
  | zero => rfl
  | succ n ih => rw [Nat.fold_succ, size_pushPixel, ih]; omega

@[simp] theorem size_ofPixels (n : Nat) (f : Nat → Pixel) : (ofPixels n f).size = 4 * n := by
  have hpixels : ofPixels n f = n.fold (fun p _ (b : Buffer) => b.pushPixel (f p)) #[] := rfl
  rw [hpixels, size_fold_pushPixel, Array.size_empty, Nat.zero_add]

@[simp] theorem size_ofRows (w h : Nat) (row : Nat → Array Pixel) :
    (ofRows w h row).size = 4 * (w * h) := by
  have hrows : ofRows w h row = h.fold (fun y _ (b : Buffer) =>
      w.fold (fun x _ b => b.pushPixel ((row y).getD x .transparent)) b) #[] := rfl
  rw [hrows]
  clear hrows
  induction h with
  | zero => rfl
  | succ h ih => rw [Nat.fold_succ, size_fold_pushPixel, ih, Nat.mul_succ, Nat.mul_add]

@[simp] theorem size_ofBytes (n : Nat) (f : Nat → UInt8) : (ofBytes n f).size = n := by
  rw [ofBytes, Array.size_ofFn]

@[simp] theorem size_zeros (n : Nat) : (zeros n).size = n := by
  rw [zeros, Array.size_replicate]

end Buffer

end SceneCanvas
