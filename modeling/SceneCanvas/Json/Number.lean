import SceneCanvas.Scalar
import SceneCanvas.Text.Numeral

/-!
# JSON numbers

A number as it is spelled, and its value. Integers that fit a 64-bit word keep their exact value.
Every other number is a double, got from the digits that fit a word and a scaling by powers of
ten; that value may differ from the nearest double in the last place. A number too large for any
double has no value.
-/

namespace SceneCanvas.Json

open Text

/-- The value of a number. -/
inductive Number where
  | int (n : Int)
  | float (x : Float)
deriving Repr, Inhabited

/-- A number as spelled: `-whole.fraction` and the exponent with its sign. -/
structure Spelling where
  negative : Bool
  whole : List Char
  fraction : List Char := []
  /-- Whether the exponent is negative, and its digits. -/
  exponent : Option (Bool × List Char) := none
deriving Repr, DecidableEq, Inhabited

/-- Append digits to a significand as long as it fits a 64-bit word; the digits left over. -/
def appendFitting (significand : Nat) : List Char → Nat × List Char
  | [] => (significand, [])
  | d :: ds =>
    let next := 10 * significand + (d.toNat - '0'.toNat)
    if next < Word.count64 then appendFitting next ds else (significand, d :: ds)

/-- The double nearest to a power of ten. -/
def powerOfTen (n : Nat) : Float := Float.ofScientific 1 false n

/-- Divide by `10 ^ n` in steps of at most `10 ^ 308`, until nothing is left. -/
def scaleDown (x : Float) (n : Nat) : Float :=
  if h : n ≤ 308 then x / powerOfTen n
  else if x == 0.0 then x
  else scaleDown (x / powerOfTen 308) (n - 308)
termination_by n

/-- Scale a significand by a power of ten; none if the result is too large. -/
def scale (significand : Nat) (exponent : Int) : Option Float :=
  let x := Float.ofNat significand
  match exponent with
  | .negSucc n => some (scaleDown x (n + 1))
  | .ofNat n =>
    if n ≤ 308 then
      let y := x * powerOfTen n
      if y.isInf then none else some y
    else if x == 0.0 then some x else none

namespace Spelling

/-- The size of a number that is not an integer fitting a word. -/
def size? (s : Spelling) : Option Float :=
  let (leading, skipped) := appendFitting 0 s.whole
  let (significand, dropped) := appendFitting leading s.fraction
  let shift : Int := skipped.length - (s.fraction.length - dropped.length : Nat)
  match s.exponent with
  | none => scale significand shift
  | some (negative, digits) =>
    let e : Int := digitsValue digits
    if e < 2147483648 then scale significand (if negative then shift - e else shift + e)
    else if significand ≠ 0 ∧ !negative then none
    else some 0.0

/-- The value of a number; none if it is too large for a double. -/
def value? (s : Spelling) : Option Number :=
  let (n, skipped) := appendFitting 0 s.whole
  let plain := skipped.isEmpty && s.fraction.isEmpty && s.exponent.isNone
  if plain && !s.negative then some (.int n)
  else if plain && 0 < n && n ≤ Word.negative64 then some (.int (-n))
  else s.size?.map fun x => .float (if s.negative then -x else x)

end Spelling

end SceneCanvas.Json
