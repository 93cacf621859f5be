/-!
# Scalars

Geometry, colour matrices and blurring are written once, over any type with the operations of
`Scalar`. Programs run them at `Float` and `Float32`, whose operations round; at `Rat` the very
same definitions compute exactly, which is where laws of exact arithmetic are stated.

Floating-point values are brought to integral ones by way of a 64-bit word, because the
primitives for it compute in programs only, and a word computes in proofs as well. `Scalar.widen`
brings a single to a double by way of its value for the same reason.

The helpers below fix the conventions for a value that is not a number: `clamp` hands it on,
`lesser` and `greater` drop it in favour of the other operand, and every conversion to an integer
sends it to zero.

Beside the scalars stand the sizes of machine words (`Word`): lengths are counted in 64-bit words,
settings hold 32-bit words, and integers written in a scene are signed 64-bit words.
-/

namespace SceneCanvas

/-! ### Words -/

namespace Word

/-- How many values a 32-bit word has. -/
abbrev count32 : Nat := 4294967296

/-- How many values a 64-bit word has. -/
abbrev count64 : Nat := 18446744073709551616

/-- How many values of a signed 64-bit word are negative. -/
abbrev negative64 : Nat := 9223372036854775808

end Word

/-! ### Scalars -/

/-- The operations that geometry and colour need of their numbers. -/
class Scalar (α : Type) extends Add α, Sub α, Mul α, Div α, Neg α, OfScientific α where
  /-- The value nearest to a natural number. -/
  ofNat : Nat → α
  /-- The value of a byte. -/
  ofByte : UInt8 → α
  /-- Strictly less; false as soon as one side is not a number. -/
  lt : α → α → Bool
  /-- Whether the value is not a number. -/
  isNaN : α → Bool
  /-- Whether the value is a number and not infinite. -/
  isFinite : α → Bool
  /-- The greatest integral value that is not above. -/
  floor : α → α
  /-- The least integral value that is not below. -/
  ceil : α → α
  /-- The nearest integral value, halves away from zero. -/
  round : α → α
  /-- The integer part, towards zero. An infinite value has an integer part beyond every word. -/
  truncate : α → Int
  /-- The integer part, held within a byte. -/
  toByte : α → UInt8
  /-- The value as it is kept in single precision. -/
  single : α → α

namespace Scalar

variable {α : Type} [Scalar α]

/-- Hold `x` between `lo` and `hi`. -/
@[inline] def clamp (lo hi x : α) : α :=
  if lt x lo then lo else if lt hi x then hi else x

/-- The lesser of two values. -/
@[inline] def lesser (x y : α) : α :=
  if isNaN x then y else if lt y x then y else x

/-- The greater of two values. -/
@[inline] def greater (x y : α) : α :=
  if isNaN x then y else if lt x y then y else x

/-- The distance from zero. -/
@[inline] def magnitude (x : α) : α :=
  if lt x 0.0 then -x else x

end Scalar

/-- Where an infinite value of either sign truncates to. -/
private def beyondWords : Int := Nat.pow 2 1100

/-! ### Integral floating-point values -/

section Integral

variable {α : Type} [Add α] [Sub α] [Neg α] [OfScientific α] [LT α] [DecidableLT α]

/-- The greatest integral value that is not above `x`, given the integer part of `x`. -/
@[inline] private def floorFrom (whole x : α) : α := if x < whole then whole - 1.0 else whole

/-- The least integral value that is not below `x`, given the integer part of `x`. -/
@[inline] private def ceilFrom (whole x : α) : α := if whole < x then whole + 1.0 else whole

/-- The integral value nearest to `x`, halves away from zero, given the integer part of `x`. -/
@[inline] private def roundFrom (whole x : α) : α :=
  if x - whole < 0.5 then
    if -0.5 < x - whole then whole else whole - 1.0
  else whole + 1.0

end Integral

/-- The integer part with the sign of `x`. From `2 ^ 52` on a double is integral anyway. -/
private def wholePart (x : Float) : Float :=
  if x.abs < 1.0 then x * 0.0
  else if x.abs < 4503599627370496.0 then
    if x < 0.0 then -x.abs.toUInt64.toFloat else x.abs.toUInt64.toFloat
  else x

/-- The integer part with the sign of `x`. From `2 ^ 23` on a single is integral anyway. -/
private def wholePart32 (x : Float32) : Float32 :=
  if x.abs < 1.0 then x * 0.0
  else if x.abs < 8388608.0 then
    if x < 0.0 then -x.abs.toUInt64.toFloat32 else x.abs.toUInt64.toFloat32
  else x

/-- Double precision. -/
instance : Scalar Float where
  ofNat := Float.ofNat
  ofByte := UInt8.toFloat
  lt x y := x < y
  isNaN := Float.isNaN
  isFinite := Float.isFinite
  floor x := floorFrom (wholePart x) x
  ceil x := ceilFrom (wholePart x) x
  round x := roundFrom (wholePart x) x
  truncate x := x.toModel.unpack.toInt (-beyondWords) beyondWords
  toByte := Float.toUInt8
  single x := x.toFloat32.toFloat

/-- Single precision. -/
instance : Scalar Float32 where
  ofNat n := OfScientific.ofScientific n false 0
  ofByte := UInt8.toFloat32
  lt x y := x < y
  isNaN := Float32.isNaN
  isFinite := Float32.isFinite
  floor x := floorFrom (wholePart32 x) x
  ceil x := ceilFrom (wholePart32 x) x
  round x := roundFrom (wholePart32 x) x
  truncate x := x.toModel.unpack.toInt (-beyondWords) beyondWords
  toByte := Float32.toUInt8
  single x := x

/-- The double with the value of a single. Every single has one. -/
def Scalar.widen (x : Float32) : Float :=
  .ofModel <| .pack <| match x.toModel.unpack with
    | .finite sign mantissa exponent _ =>
      Float.Model.UnpackedFloat.round .binary64 sign mantissa exponent
    | special => special

/-- Exact arithmetic. -/
instance : Scalar Rat where
  ofNat n := n
  ofByte b := b.toNat
  lt x y := decide (x < y)
  isNaN _ := false
  isFinite _ := true
  floor x := x.floor
  ceil x := x.ceil
  round x := if x < 0 then -((-x + 1/2).floor : Rat) else ((x + 1/2).floor : Rat)
  truncate x := Int.tdiv x.num x.den
  toByte x := UInt8.ofNat (Nat.min 255 (Int.tdiv x.num x.den).toNat)
  single x := x

end SceneCanvas
