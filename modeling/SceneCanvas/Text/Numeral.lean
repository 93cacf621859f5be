import SceneCanvas.Scalar
import SceneCanvas.Text.Blank

/-!
# Numerals

Numbers in a scene and in settings are read leniently: leading white space is skipped, the longest
numeral is taken, and whatever follows it is ignored, so `12px` reads as twelve.

A decimal numeral is an optional sign, digits with an optional point (at least one digit on one
side of it) and an optional exponent; an integer numeral is an optional sign and digits. Reading a
numeral is separate from finding it: `decimalSpan` and `integerSpan` cut the numeral off,
`Decimal.ofChars?` and `integer?` give it a value and accept nothing but a whole numeral.
-/

namespace SceneCanvas.Text

/-- One of the ten digits `0` to `9`. -/
def isDigit (c : Char) : Bool := '0' ≤ c && c ≤ '9'

/-- A sign. -/
def isSign (c : Char) : Bool := c == '+' || c == '-'

/-- The letter before an exponent. -/
def isExponentMark (c : Char) : Bool := c == 'e' || c == 'E'

/-- The value of a run of digits, the leading digit first. -/
def digitsValue (ds : List Char) : Nat := ds.foldl (fun n d => 10 * n + (d.toNat - '0'.toNat)) 0

/-- Split off an optional sign. -/
def takeSign : List Char → List Char × List Char
  | c :: rest => if isSign c then ([c], rest) else ([], c :: rest)
  | [] => ([], [])

/-- Split off an optional sign and the digits after it. -/
def takeSignedDigits (cs : List Char) : List Char × List Char × List Char :=
  let (sign, rest) := takeSign cs
  (sign, rest.takeWhile isDigit, rest.dropWhile isDigit)

/-! ### Finding a numeral -/

/-- The longest integer numeral that `cs` starts with, empty if there is none. -/
def integerSpan (cs : List Char) : List Char :=
  let (sign, digits, _) := takeSignedDigits cs
  if digits.isEmpty then [] else sign ++ digits

/-- The longest point with digits that may follow `whole` digits: a point needs a digit on one
side. -/
def fractionSpan (whole rest : List Char) : List Char :=
  match rest with
  | '.' :: rest' =>
    let digits := rest'.takeWhile isDigit
    if whole.isEmpty && digits.isEmpty then [] else '.' :: digits
  | _ => []

/-- The longest exponent that `cs` starts with, empty if there is none. -/
def exponentSpan : List Char → List Char
  | c :: rest =>
    if isExponentMark c then
      let (sign, digits, _) := takeSignedDigits rest
      if digits.isEmpty then [] else c :: (sign ++ digits)
    else []
  | [] => []

/-- The longest decimal numeral that `cs` starts with, empty if there is none. -/
def decimalSpan (cs : List Char) : List Char :=
  let (sign, whole, rest) := takeSignedDigits cs
  let fraction := fractionSpan whole rest
  if whole.isEmpty && fraction.isEmpty then []
  else sign ++ whole ++ fraction ++ exponentSpan (rest.drop fraction.length)

/-! ### The value of a numeral -/

/-- A decimal number: `± mantissa * 10 ^ exponent`. -/
structure Decimal where
  negative : Bool
  mantissa : Nat
  exponent : Int
deriving Repr, DecidableEq

/-- The value of an integer numeral; none for any other text. -/
def integer? (cs : List Char) : Option Int :=
  let (sign, digits, rest) := takeSignedDigits cs
  if digits.isEmpty || !rest.isEmpty then none
  else
    let n : Int := digitsValue digits
    some (if sign == ['-'] then -n else n)

namespace Decimal

/-- The exponent that a text spells; no text spells zero. -/
def exponentOf? : List Char → Option Int
  | [] => some 0
  | c :: rest => if isExponentMark c then integer? rest else none

/-- The value of a decimal numeral; none for any other text. -/
def ofChars? (cs : List Char) : Option Decimal :=
  let (sign, whole, rest) := takeSignedDigits cs
  let (fraction, rest) := match rest with
    | '.' :: rest' => (rest'.takeWhile isDigit, rest'.dropWhile isDigit)
    | _ => ([], rest)
  if whole.isEmpty && fraction.isEmpty then none
  else do
    let e ← exponentOf? rest
    return ⟨sign == ['-'], digitsValue (whole ++ fraction), e - fraction.length⟩

/-- The double nearest to the number. A number too large for any double is infinite. -/
def toFloat (d : Decimal) : Float :=
  let size : Float := match d.exponent with
    | .ofNat e => OfScientific.ofScientific d.mantissa false e
    | .negSucc e => OfScientific.ofScientific d.mantissa true (e + 1)
  if d.negative then -size else size

end Decimal

/-! ### Lenient readers -/

/-- The double that a text starts with, if there is a decimal numeral and its value is finite. -/
def lenientFloat? (cs : List Char) : Option Float :=
  (Decimal.ofChars? (decimalSpan (trimStart cs))).map Decimal.toFloat |>.filter Float.isFinite

/-- The integers that fit 64 bits. -/
def fitsInt64 (n : Int) : Bool := -(Word.negative64 : Int) ≤ n && n < (Word.negative64 : Int)

/-- The integer that a text starts with, if there is an integer numeral and its value fits 64
bits. -/
def lenientInt? (cs : List Char) : Option Int :=
  (integer? (integerSpan (trimStart cs))).filter fitsInt64

end SceneCanvas.Text
