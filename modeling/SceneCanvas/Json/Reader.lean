import SceneCanvas.Json.Number
import SceneCanvas.Json.Text

/-!
# Reading JSON

A JSON document as a tree, and a reader of strict JSON: no comments, no trailing commas, no leading
zeros, nothing after the document. Members of an object keep their order, and a key may occur more
than once; whoever uses the tree decides what that means. A string whose escapes leave a surrogate
without its partner spells no text, and a number may be too large to have a value, so both are
optional in the tree.

`room` bounds how many arrays and objects may be nested. A checked reader also refuses
strings that spell no text and numbers that have no value; an unchecked one keeps them in the
tree, where whoever needs them can still refuse.
-/

namespace SceneCanvas

/-- A JSON document. -/
inductive Json where
  | null
  | bool (b : Bool)
  | number (value : Option Json.Number)
  | string (text : Option String)
  | array (items : List Json)
  | object (members : List (Option String × Json))
deriving Inhabited

namespace Json

open Text (isDigit isSign isExponentMark)

/-- A reader of something at the start of a text; it answers with what is left. -/
abbrev Reader (α : Type) := List Char → Option (α × List Char)

/-- White space between the tokens of a document. -/
def isSpace (c : Char) : Bool := c == ' ' || c == '\t' || c == '\n' || c == '\r'

/-- Skip white space. -/
def skipSpace (cs : List Char) : List Char := cs.dropWhile isSpace

/-- Read one digit or more. -/
def readDigits : Reader (List Char) := fun cs =>
  match cs.takeWhile isDigit with
  | [] => none
  | ds => some (ds, cs.dropWhile isDigit)

/-- Read the whole part of a number: a zero, or digits that do not start with one. -/
def readWhole : Reader (List Char)
  | '0' :: rest =>
    match rest with
    | c :: _ => if isDigit c then none else some (['0'], rest)
    | [] => some (['0'], [])
  | cs => readDigits cs

/-- Read the optional fraction of a number. -/
def readFraction : Reader (List Char)
  | '.' :: rest => readDigits rest
  | cs => some ([], cs)

/-- Read the optional exponent of a number. -/
def readExponent : Reader (Option (Bool × List Char))
  | c :: rest =>
    if isExponentMark c then
      let (sign, rest) := Text.takeSign rest
      (readDigits rest).map fun (ds, rest) => (some (sign == ['-'], ds), rest)
    else some (none, c :: rest)
  | [] => some (none, [])

/-- Read a number, behind its optional minus sign. -/
def readSize (negative : Bool) : Reader Spelling := fun cs => do
  let (whole, cs) ← readWhole cs
  let (fraction, cs) ← readFraction cs
  let (exponent, cs) ← readExponent cs
  return (⟨negative, whole, fraction, exponent⟩, cs)

/-- Read a number. -/
def readNumber : Reader Spelling
  | '-' :: rest => readSize true rest
  | cs => readSize false cs

/-- Hand on a leaf of the document, which a checked reader wants to have a value. -/
def leaf {α : Type} (checked : Bool) (wrap : Option α → Json) (value : Option α)
    (rest : List Char) : Option (Json × List Char) :=
  if checked && value.isNone then none else some (wrap value, rest)

/-- Read the inside of a string. -/
def readText : Reader (Option String) := fun cs =>
  (unquote? cs).map fun (units, rest) => ((pairUnits units).map String.ofList, rest)

/-- Read a document that is neither an array nor an object. -/
def readScalar (checked : Bool) : Reader Json := fun cs =>
  match cs with
  | 'n' :: 'u' :: 'l' :: 'l' :: rest => some (.null, rest)
  | 't' :: 'r' :: 'u' :: 'e' :: rest => some (.bool true, rest)
  | 'f' :: 'a' :: 'l' :: 's' :: 'e' :: rest => some (.bool false, rest)
  | '"' :: rest => do
    let (text, rest) ← readText rest
    leaf checked .string text rest
  | cs => do
    let (spelling, rest) ← readNumber cs
    leaf checked .number spelling.value? rest

/-- Read the items of an array up to its closing bracket; `fuel` bounds their number. -/
def readItems (item : Reader Json) : Nat → Reader (List Json)
  | 0, _ => none
  | fuel + 1, cs => do
    let (x, cs) ← item (skipSpace cs)
    match skipSpace cs with
    | ',' :: cs =>
      let (xs, cs) ← readItems item fuel cs
      return (x :: xs, cs)
    | ']' :: cs => return ([x], cs)
    | _ => none

/-- Read one member of an object. -/
def readMember (checked : Bool) (item : Reader Json) : Reader (Option String × Json) := fun cs =>
  match skipSpace cs with
  | '"' :: cs => do
    let (key, cs) ← readText cs
    if checked && key.isNone then none
    else match skipSpace cs with
      | ':' :: cs =>
        let (value, cs) ← item (skipSpace cs)
        return ((key, value), cs)
      | _ => none
  | _ => none

/-- Read the members of an object up to its closing brace; `fuel` bounds their number. -/
def readMembers (checked : Bool) (item : Reader Json) :
    Nat → Reader (List (Option String × Json))
  | 0, _ => none
  | fuel + 1, cs => do
    let (x, cs) ← readMember checked item cs
    match skipSpace cs with
    | ',' :: cs =>
      let (xs, cs) ← readMembers checked item fuel cs
      return (x :: xs, cs)
    | '\x7d' :: cs => return ([x], cs)
    | _ => none

/-- Read a document whose arrays and objects are nested at most `room` deep. -/
def readValue (checked : Bool) : (room : Nat) → Reader Json
  | 0 => fun cs => readScalar checked cs
  | room + 1 => fun cs =>
    match cs with
    | '[' :: rest =>
      match skipSpace rest with
      | ']' :: rest => some (.array [], rest)
      | _ => (readItems (readValue checked room) rest.length rest).map fun (xs, cs) =>
        (.array xs, cs)
    | '\x7b' :: rest =>
      match skipSpace rest with
      | '\x7d' :: rest => some (.object [], rest)
      | _ => (readMembers checked (readValue checked room) rest.length rest).map
        fun (xs, cs) => (.object xs, cs)
    | cs => readScalar checked cs

/-- Read a whole text as one document. -/
def parse? (checked : Bool) (room : Nat) (cs : List Char) : Option Json := do
  let (value, rest) ← readValue checked room (skipSpace cs)
  if (skipSpace rest).isEmpty then some value else none

/-- How deep arrays and objects may be nested where the whole document is needed. -/
def maxDepth : Nat := 127

/-- Read a text all of which has to make sense. -/
def parseChecked? (cs : List Char) : Option Json := parse? true maxDepth cs

/-- Read a text of which parts may be ignored, and so need not make sense. -/
def parseLax? (cs : List Char) : Option Json := parse? false cs.length cs

end Json

end SceneCanvas
