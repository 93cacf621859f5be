import SceneCanvas.Script.Token

/-!
# Lines

A scene is written in lines, separated by line breaks or by `&`. A line that is blank or that
contains the comment mark `%%` is skipped whole. The tokens of a line are positional arguments, of
which the first is the command, and options of the form `key:value`.
-/

namespace SceneCanvas.Script

open Text

/-! ### The lines of a source -/

/-- The characters that end a line. -/
def isSeparator (c : Char) : Bool := c == '\r' || c == '\n' || c == '&'

/-- The line holds something, and no comment mark. -/
def isLive (line : List Char) : Bool := !allBlank line && !contains line ['%', '%']

/-- The lines of a source that are not skipped, as written. -/
def liveLines (source : List Char) : List (List Char) :=
  (splitWhere isSeparator (trim source)).filter isLive

/-- The lines of a source that are not skipped. -/
def sourceLines (source : String) : List String :=
  (liveLines source.toList).map String.ofList

/-! ### Arguments and options -/

/-- A line cut into positional arguments and options. -/
structure Line where
  /-- Positional arguments in order. -/
  args : List String := []
  /-- The value of every option key, each key once. -/
  options : List (String × String) := []
deriving Repr, BEq, DecidableEq, Inhabited

namespace Line

/-- The first argument. -/
def command? (line : Line) : Option String := line.args.head?

/-- The arguments after the command. -/
def rest (line : Line) : List String := line.args.tail

/-- The value of an option. -/
def option? (line : Line) (key : String) : Option String := line.options.lookup key

/-- Cut a token at its first colon. -/
def splitOption (token : List Char) : Option (List Char × List Char) :=
  match token.dropWhile (· != ':') with
  | _ :: value => some (token.takeWhile (· != ':'), value)
  | [] => none

/-- Add a token: an argument if it has no colon, else an option, which replaces an earlier one of
the same key. A token that starts with a colon is dropped. -/
def add (line : Line) (token : List Char) : Line :=
  match splitOption token with
  | none => { line with args := line.args ++ [String.ofList token] }
  | some ([], _) => line
  | some (key, value) =>
    let key := String.ofList key
    { line with
      options := line.options.filter (·.1 != key) ++ [(key, String.ofList value)] }

/-- The line made of a list of tokens. -/
def ofTokens (ts : List (List Char)) : Line := ts.foldl add {}

/-- The line that a text spells. -/
def ofChars (cs : List Char) : Line := ofTokens (tokens cs)

/-- The line that a string spells. -/
def parse (text : String) : Line := ofChars text.toList

end Line

end SceneCanvas.Script
