/-!
# White space

The characters with the Unicode property White_Space, and trimming by them. Control separators
(U+001C to U+001F), the zero-width space and the byte order mark are not among them.
-/

namespace SceneCanvas.Text

/-- The character has the property White_Space. -/
def isBlank (c : Char) : Bool :=
  let n := c.toNat
  (0x09 ≤ n && n ≤ 0x0D) || n == 0x20 || n == 0x85 || n == 0xA0 || n == 0x1680
    || (0x2000 ≤ n && n ≤ 0x200A) || n == 0x2028 || n == 0x2029 || n == 0x202F || n == 0x205F
    || n == 0x3000

/-- Leave out leading white space. -/
def trimStart (cs : List Char) : List Char := cs.dropWhile isBlank

/-- Leave out trailing white space. -/
def trimEnd (cs : List Char) : List Char := (cs.reverse.dropWhile isBlank).reverse

/-- Leave out white space at both ends. -/
def trim (cs : List Char) : List Char := trimEnd (trimStart cs)

/-- There is nothing but white space. -/
def allBlank (cs : List Char) : Bool := cs.all isBlank

/-- Whether `cs` starts with `sub`. -/
def startsWith (cs sub : List Char) : Bool := sub.isPrefixOf cs

/-- Whether `sub` occurs in `cs`. -/
def contains : List Char → List Char → Bool
  | [], sub => startsWith [] sub
  | c :: rest, sub => startsWith (c :: rest) sub || contains rest sub

/-- The pieces between the characters that satisfy `p`. There is always at least one. -/
def splitWhere (p : Char → Bool) : List Char → List (List Char)
  | [] => [[]]
  | c :: rest =>
    if p c then [] :: splitWhere p rest
    else match splitWhere p rest with
      | [] => [[c]]
      | piece :: pieces => (c :: piece) :: pieces

end SceneCanvas.Text
