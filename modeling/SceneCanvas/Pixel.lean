import SceneCanvas.Scalar

/-!
# Pixels

A pixel is four bytes, red, green, blue and alpha. Unless a name says *straight*, its colour is
premultiplied: each colour byte is already scaled by alpha, so none exceeds it.

All byte products go through `mul255`, which reads bytes as fractions of 255 and rounds to the
nearest byte. The two conversions between straight and premultiplied pixels, the colours a scene
names, and the per-pixel rules for laying one pixel over another are built on it.
-/

namespace SceneCanvas

/-! ### Byte arithmetic -/

/-- The product of two bytes read as fractions of 255, rounded to the nearest byte. The divisor
is odd, so there are no ties. -/
@[inline] def mul255 (x y : UInt8) : UInt8 :=
  UInt8.ofNat ((x.toNat * y.toNat + 127) / 255)

/-- The sum of two bytes, held at 255. -/
@[inline] def saturatingAdd (x y : UInt8) : UInt8 :=
  UInt8.ofNat (Nat.min 255 (x.toNat + y.toNat))

/-! ### Pixels -/

/-- Red, green, blue and alpha. -/
structure Pixel where
  r : UInt8
  g : UInt8
  b : UInt8
  a : UInt8
deriving Repr, BEq, DecidableEq, Inhabited

namespace Pixel

/-- Nothing at all. -/
def transparent : Pixel := ⟨0, 0, 0, 0⟩

/-- The four bytes in order. -/
def toList (p : Pixel) : List UInt8 := [p.r, p.g, p.b, p.a]

/-- Apply a function to every byte. -/
@[inline] def map (f : UInt8 → UInt8) (p : Pixel) : Pixel := ⟨f p.r, f p.g, f p.b, f p.a⟩

/-- Apply a function to the three colour bytes. -/
@[inline] def mapColor (f : UInt8 → UInt8) (p : Pixel) : Pixel :=
  { p with r := f p.r, g := f p.g, b := f p.b }

/-- Combine two pixels byte by byte. -/
@[inline] def zipWith (f : UInt8 → UInt8 → UInt8) (p q : Pixel) : Pixel :=
  ⟨f p.r q.r, f p.g q.g, f p.b q.b, f p.a q.a⟩

/-- No colour byte exceeds alpha. -/
def Premultiplied (p : Pixel) : Prop := p.r ≤ p.a ∧ p.g ≤ p.a ∧ p.b ≤ p.a

instance (p : Pixel) : Decidable p.Premultiplied := inferInstanceAs (Decidable (_ ∧ _))

/-! ### Straight and premultiplied colour -/

/-- Scale the colour by alpha. -/
def premultiply (p : Pixel) : Pixel :=
  p.mapColor (mul255 · p.a)

/-- Undo the scaling of one colour byte by alpha `a`: the nearest quotient, held at 255. -/
@[inline] def unscale (a c : UInt8) : UInt8 :=
  UInt8.ofNat (Nat.min 255 ((c.toNat * 255 + a.toNat / 2) / a.toNat))

/-- Undo the scaling by alpha. A transparent pixel loses its colour, an opaque one is straight
already. -/
def unpremultiply (p : Pixel) : Pixel :=
  if p.a = 0 then transparent
  else if p.a = 255 then p
  else p.mapColor (unscale p.a)

/-! ### Named colours -/

/-- The premultiplied pixel of a straight colour. -/
def ofStraight (r g b a : UInt8) : Pixel := premultiply ⟨r, g, b, a⟩

/-- The opaque colour of a number `0xRRGGBB`; higher bits are not looked at. -/
def ofHex (hex : UInt32) : Pixel :=
  ⟨(hex >>> 16).toUInt8, (hex >>> 8).toUInt8, hex.toUInt8, 255⟩

/-- A fraction as a byte: held to the unit interval and rounded. -/
def fractionByte (x : Float32) : UInt8 :=
  Scalar.toByte (Scalar.round (Scalar.clamp 0.0 1.0 x * 255.0))

/-- A straight colour whose alpha is given as a fraction. -/
def withAlpha (r g b : UInt8) (alpha : Float32) : Pixel := ofStraight r g b (fractionByte alpha)

/-! ### One pixel over another -/

/-- Lay `s`, scaled by `opacity`, over `d`: what the source does not cover of the destination
shows through. A source that scales to no coverage leaves the destination alone. -/
@[inline] def sourceOver (opacity : UInt8) (s d : Pixel) : Pixel :=
  let cover := mul255 s.a opacity
  if cover = 0 then d
  else
    let rest := 255 - cover
    s.zipWith (fun sc dc => saturatingAdd (mul255 sc opacity) (mul255 dc rest)) d

/-- Lay the opaque or translucent colour `s` over `d`, at full opacity. -/
@[inline] def overFull (s d : Pixel) : Pixel :=
  let rest := 255 - s.a
  s.zipWith (fun sc dc => saturatingAdd sc (mul255 dc rest)) d

end Pixel

end SceneCanvas
