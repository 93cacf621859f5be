import SceneCanvas.Buffer

/-!
# Colour matrices

A colour matrix sends the straight colour and alpha of a pixel, as fractions, to new ones: each
new component is a weighted sum of the four old ones and a constant. Matrices apply to
premultiplied pixels by dividing alpha out first and multiplying the new alpha in at the end.

The named matrices are the ones of web filter effects. The arithmetic runs over any `Scalar` in a
fixed order; pictures use single precision.
-/

namespace SceneCanvas

/-- The weights of one component. -/
structure ColorRow (α : Type) where
  r : α
  g : α
  b : α
  a : α
  offset : α
deriving Repr, BEq, Inhabited

/-- The weights of the four components. -/
structure ColorMatrix (α : Type) where
  red : ColorRow α
  green : ColorRow α
  blue : ColorRow α
  alpha : ColorRow α
deriving Repr, BEq, Inhabited

/-- A change of tone. -/
inductive Tone (α : Type) where
  | brightness (factor : α)
  | saturate (factor : α)
deriving Repr, BEq

namespace ColorRow

variable {α : Type} [Scalar α]

/-- The weighted sum, held to the unit interval. -/
@[inline] def eval (row : ColorRow α) (r g b a : α) : α :=
  Scalar.clamp 0.0 1.0 (row.r * r + row.g * g + row.b * b + row.a * a + row.offset)

/-- The coefficients in order. -/
def toList (row : ColorRow α) : List α := [row.r, row.g, row.b, row.a, row.offset]

/-- The row that hands alpha on. -/
def keepAlpha : ColorRow α := ⟨0.0, 0.0, 0.0, 1.0, 0.0⟩

/-- A row that mixes the colours only. -/
def mix (r g b : α) : ColorRow α := ⟨r, g, b, 0.0, 0.0⟩

end ColorRow

namespace ColorMatrix

variable {α : Type} [Scalar α]

/-- The coefficients, row by row. -/
def toList (m : ColorMatrix α) : List α :=
  m.red.toList ++ m.green.toList ++ m.blue.toList ++ m.alpha.toList

/-- Change nothing. -/
def identity : ColorMatrix α where
  red := ⟨1.0, 0.0, 0.0, 0.0, 0.0⟩
  green := ⟨0.0, 1.0, 0.0, 0.0, 0.0⟩
  blue := ⟨0.0, 0.0, 1.0, 0.0, 0.0⟩
  alpha := .keepAlpha

/-- Scale the colours. -/
def brightness (k : α) : ColorMatrix α where
  red := .mix k 0.0 0.0
  green := .mix 0.0 k 0.0
  blue := .mix 0.0 0.0 k
  alpha := .keepAlpha

/-- Scale the distance from grey. -/
def saturate (s : α) : ColorMatrix α where
  red := .mix (0.213 + 0.787 * s) (0.715 - 0.715 * s) (0.072 - 0.072 * s)
  green := .mix (0.213 - 0.213 * s) (0.715 + 0.285 * s) (0.072 - 0.072 * s)
  blue := .mix (0.213 - 0.213 * s) (0.715 - 0.715 * s) (0.072 + 0.928 * s)
  alpha := .keepAlpha

/-- Fade to grey; a fraction of one is fully grey. -/
def grayscale (amount : α) : ColorMatrix α :=
  let s := 1.0 - Scalar.clamp 0.0 1.0 amount
  { red := .mix (0.2126 + 0.7874 * s) (0.7152 - 0.7152 * s) (0.0722 - 0.0722 * s)
    green := .mix (0.2126 - 0.2126 * s) (0.7152 + 0.2848 * s) (0.0722 - 0.0722 * s)
    blue := .mix (0.2126 - 0.2126 * s) (0.7152 - 0.7152 * s) (0.0722 + 0.9278 * s)
    alpha := .keepAlpha }

/-- Fade to sepia; a fraction of one is full sepia. -/
def sepia (amount : α) : ColorMatrix α :=
  let s := 1.0 - Scalar.clamp 0.0 1.0 amount
  { red := .mix (0.393 + 0.607 * s) (0.769 - 0.769 * s) (0.189 - 0.189 * s)
    green := .mix (0.349 - 0.349 * s) (0.686 + 0.314 * s) (0.168 - 0.168 * s)
    blue := .mix (0.272 - 0.272 * s) (0.534 - 0.534 * s) (0.131 + 0.869 * s)
    alpha := .keepAlpha }

/-- Fade to the negative; a fraction of one is the full negative. -/
def invert (amount : α) : ColorMatrix α :=
  let a := Scalar.clamp 0.0 1.0 amount
  let k := 1.0 - 2.0 * a
  { red := ⟨k, 0.0, 0.0, 0.0, a⟩
    green := ⟨0.0, k, 0.0, 0.0, a⟩
    blue := ⟨0.0, 0.0, k, 0.0, a⟩
    alpha := .keepAlpha }

/-- Turn the hues by the angle with the given cosine and sine. -/
def turnHue (cos sin : α) : ColorMatrix α where
  red := .mix (0.213 + cos * 0.787 - sin * 0.213) (0.715 - cos * 0.715 - sin * 0.715)
    (0.072 - cos * 0.072 + sin * 0.928)
  green := .mix (0.213 - cos * 0.213 + sin * 0.143) (0.715 + cos * 0.285 + sin * 0.140)
    (0.072 - cos * 0.072 - sin * 0.283)
  blue := .mix (0.213 - cos * 0.213 - sin * 0.787) (0.715 - cos * 0.715 + sin * 0.715)
    (0.072 + cos * 0.928 + sin * 0.072)
  alpha := .keepAlpha

/-- Turn the hues by an angle in degrees. -/
def hueRotate (degrees : Float32) : ColorMatrix Float32 :=
  let radians := degrees * 0.017453292519943295769
  turnHue radians.cos radians.sin

/-- The matrix of a change of tone. -/
def ofTone : Tone α → ColorMatrix α
  | .brightness k => brightness k
  | .saturate s => saturate s

/-- A fraction as a byte: rounded and held to the bytes. -/
@[inline] def fractionByte (v : α) : UInt8 :=
  Scalar.toByte (Scalar.clamp 0.0 255.0 (Scalar.round (v * 255.0)))

/-- The new value of a premultiplied pixel. -/
@[specialize] def applyPixel (m : ColorMatrix α) (p : Pixel) : Pixel :=
  let a : α := Scalar.ofByte p.a / 255.0
  let unscale : α := if Scalar.lt 0.0 a then 1.0 / a else 0.0
  let r := Scalar.ofByte p.r / 255.0 * unscale
  let g := Scalar.ofByte p.g / 255.0 * unscale
  let b := Scalar.ofByte p.b / 255.0 * unscale
  let alpha := m.alpha.eval r g b a
  { r := fractionByte (m.red.eval r g b a * alpha)
    g := fractionByte (m.green.eval r g b a * alpha)
    b := fractionByte (m.blue.eval r g b a * alpha)
    a := fractionByte alpha }

/-- Apply a matrix to every complete pixel of a buffer. -/
@[specialize] def apply (m : ColorMatrix α) (b : Buffer) : Buffer := b.mapPixels m.applyPixel

end ColorMatrix

end SceneCanvas
