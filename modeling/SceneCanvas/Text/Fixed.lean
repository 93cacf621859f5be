import SceneCanvas.Scalar

/-!
# Fixed places

A double printed with a fixed number of decimal places. The double is read as the exact fraction
that it is; what lies beyond the last place is rounded to the nearest, and a half goes to the even
neighbour.
-/

namespace SceneCanvas.Text

/-- The integer nearest to a fraction, a half going to the even neighbour. -/
def roundDiv (num den : Nat) : Nat :=
  let q := num / den
  let r := num % den
  if 2 * r < den then q
  else if den < 2 * r then q + 1
  else q + q % 2

/-- Digits with a point before the last `places` of them, and a zero before a bare point. -/
def insertPoint (places n : Nat) : List Char :=
  let digits := Nat.toDigits 10 n
  let padded := List.replicate (places + 1 - digits.length) '0' ++ digits
  let whole := padded.length - places
  if places = 0 then padded else padded.take whole ++ ['.'] ++ padded.drop whole

/-- The fraction `± mantissa * 2 ^ exponent`, rounded to a number of places. -/
def fixedFraction (places : Nat) (negative : Bool) (mantissa : Nat) (exponent : Int) :
    List Char :=
  let scaled := mantissa * Nat.pow 10 places
  let n := match exponent with
    | .ofNat e => scaled * Nat.pow 2 e
    | .negSucc e => roundDiv scaled (Nat.pow 2 (e + 1))
  if negative then '-' :: insertPoint places n else insertPoint places n

/-- How many values the fraction bits of a double have. -/
def fractionCount : Nat := 4503599627370496

/-- A double with a fixed number of places. -/
def fixed (places : Nat) (x : Float) : String :=
  let bits := x.toBits.toNat
  let negative := decide (Word.negative64 ≤ bits)
  let biased : Nat := bits / fractionCount % 2048
  let fraction : Nat := bits % fractionCount
  String.ofList <|
    if biased = 2047 then
      if fraction ≠ 0 then ['N', 'a', 'N']
      else if negative then ['-', 'i', 'n', 'f'] else ['i', 'n', 'f']
    else if biased = 0 then fixedFraction places negative fraction (-1074)
    else fixedFraction places negative (fractionCount + fraction) ((biased : Int) - 1075)

/-- Fill a text up to a width with spaces behind it. -/
def padEnd (width : Nat) (s : String) : String :=
  s ++ String.ofList (List.replicate (width - s.length) ' ')

/-- Fill a text up to a width with spaces before it. -/
def padStart (width : Nat) (s : String) : String :=
  String.ofList (List.replicate (width - s.length) ' ') ++ s

end SceneCanvas.Text
