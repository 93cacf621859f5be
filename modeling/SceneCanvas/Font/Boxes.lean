import SceneCanvas.Font.Shaper
import SceneCanvas.Text.Blank
import SceneCanvas.Text.Mark

/-!
# Box glyphs

A shaping engine for faces of box glyphs (`Shaper.boxes`), on a grid of 1024 units to the font size:
a letter or digit is a filled rectangle, and white space and everything unknown is blank. Characters
that a face lacks are as wide as a box, but for the spaces with a width of their own, and for marks
and invisible characters, which have none. A line break in a text starts another line below.
-/

namespace SceneCanvas.Font

/-! ### Glyphs -/

/-- A rectangle of font units above the baseline. -/
structure GlyphBox where
  left : Nat
  bottom : Nat
  right : Nat
  top : Nat
deriving Repr, DecidableEq, Inhabited

/-- How far a character moves the pen, and the rectangle it fills. -/
structure Glyph where
  advance : Nat
  box : Option GlyphBox
deriving Repr, DecidableEq, Inhabited

/-- Font units to the font size. -/
def unitsPerEm : Nat := 1024

/-- The character of the face that stands for a character: some signs are only other names of
ASCII characters. -/
def standIn (c : Char) : Char :=
  match c.toNat with
  | 0x037E => ';'
  | 0x1FEF => '\x60'
  | 0x212A => 'K'
  | _ => c

/-- The `k`-th part of the font size, to the nearest unit. -/
def emPart (k : Nat) : Nat := (unitsPerEm + k / 2) / k

/-- The width of a space that no face has a glyph of. -/
def spaceAdvance? (c : Char) : Option Nat :=
  match c.toNat with
  | 0x00A0 => some 256
  | 0x2000 | 0x2002 => some (emPart 2)
  | 0x2001 | 0x2003 | 0x3000 => some (emPart 1)
  | 0x2004 => some (emPart 3)
  | 0x2005 => some (emPart 4)
  | 0x2006 => some (emPart 6)
  -- As wide as a digit, and as a full stop.
  | 0x2007 => some 512
  | 0x2008 => some 256
  | 0x2009 => some (emPart 5)
  | 0x200A => some (emPart 16)
  -- Half a space, and four eighteenths of the font size.
  | 0x202F => some 128
  | 0x205F => some (4 * unitsPerEm / 18)
  | _ => none

/-- The first and the last character of each range of characters that only steer the layout. -/
def invisibleRanges : List (Nat × Nat) :=
  [ (0xAD, 0xAD), (0x34F, 0x34F), (0x61C, 0x61C), (0x17B4, 0x17B5), (0x180B, 0x180F),
    (0x200B, 0x200F), (0x202A, 0x202E), (0x2060, 0x206F), (0xFE00, 0xFE0F), (0xFEFF, 0xFEFF),
    (0xFFF0, 0xFFF8), (0x1D173, 0x1D17A), (0xE0000, 0xE0FFF) ]

/-- The character only steers the layout. -/
def isInvisible (c : Char) : Bool :=
  invisibleRanges.any fun r => r.1 ≤ c.toNat && c.toNat ≤ r.2

/-- The glyph of a character. -/
def glyphOf (c : Char) : Glyph :=
  let c := standIn c
  if ('a' ≤ c ∧ c ≤ 'z') ∨ ('0' ≤ c ∧ c ≤ '9') then ⟨512, some ⟨128, 0, 384, 512⟩⟩
  else if 'A' ≤ c ∧ c ≤ 'Z' then ⟨1024, some ⟨128, 0, 896, 768⟩⟩
  else if c = ' ' then ⟨256, none⟩
  else if '!' ≤ c ∧ c ≤ '~' then ⟨256, some ⟨64, 0, 192, 128⟩⟩
  else if isInvisible c || Text.isMark c then ⟨0, none⟩
  else ⟨(spaceAdvance? c).getD 512, none⟩

/-! ### Lines -/

/-- A number of font units at a font size. -/
def toPixels (size : Float32) (units : Nat) : Float32 := Scalar.ofNat units * (size / 1024.0)

/-- The width of some characters. -/
def widthOf (size : Float32) (cs : List Char) : Float32 :=
  cs.foldl (fun w c => w + toPixels size (glyphOf c).advance) 0.0

/-- The character ends a line. -/
def isLineBreak (c : Char) : Bool := c == '\n' || c == '\r'

/-- The character has no width at the end of a line: spaces and tabs, and no other white space. -/
def isHanging (c : Char) : Bool := c == ' ' || c == '\t' || c.toNat == 0xA0

/-- The lines of a text. There is always at least one. -/
def linesOf (text : String) : List (List Char) := Text.splitWhere isLineBreak text.toList

/-- The width of a line without the spaces at its end. -/
def lineWidth (size : Float32) (line : List Char) : Float32 :=
  widthOf size line - widthOf size (line.reverse.takeWhile isHanging)

/-- How far a line reaches above its baseline. -/
def ascentOf (size : Float32) : Float32 := toPixels size 768

/-- How far a line reaches below its baseline. -/
def descentOf (size : Float32) : Float32 := toPixels size 256

/-- The height of a line. -/
def lineHeight (size : Float32) : Float32 := ascentOf size + descentOf size

/-- The baseline of the first line, which lies on a whole pixel. -/
def firstBaseline (size : Float32) : Float32 :=
  let gap := lineHeight size - ((ascentOf size).round + (descentOf size).round)
  (gap * 0.5).floor + (ascentOf size).round

/-- The glyph of a character, which goes by the number of the character. -/
def shapeChar (size : Float32) (c : Char) : ShapedGlyph :=
  ⟨c.toNat, 0.0, 0.0, toPixels size (glyphOf c).advance⟩

/-- Set lines below each other, the first one on the given baseline. -/
def shapeLines (size : Float32) : Float32 → List (List Char) → List ShapedLine
  | _, [] => []
  | baseline, line :: rest =>
    ⟨ascentOf size, descentOf size, baseline,
      [⟨0.0, baseline, size, line.map (shapeChar size)⟩]⟩
      :: shapeLines size (baseline + lineHeight size) rest

/-- A text at a font size. It is as wide as its widest line. -/
def shapeText (size : Float32) (text : String) : Paragraph where
  width := (linesOf text).foldl (fun w line => Scalar.greater w (lineWidth size line)) 0.0
  height := (linesOf text).foldl (fun h _ => h + lineHeight size) 0.0
  lines := shapeLines size (firstBaseline size) (linesOf text)

/-- The engine of box glyphs. A face holds the one family that it is known by, and its glyphs are
the same in bold. -/
def Shaper.boxes : Shaper where
  register face := [some face.family]
  shape _ text size _ := shapeText size text

end SceneCanvas.Font
