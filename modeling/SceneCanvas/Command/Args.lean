import SceneCanvas.Text.Numeral

/-!
# Command-line arguments

The grammar of the command line. A command is picked by the first word; long options take their
value after `=` or as the next word, short ones also without a gap, and short flags may be run
together. A word that starts with a dash is never taken for a value, and after `--` every word is
a positional argument. Anything that does not fit is a usage error.
-/

namespace SceneCanvas.Command

/-- What the render command is asked to do. -/
structure RenderArgs where
  /-- The scene file. -/
  scene : String
  /-- The image to write. -/
  out : String
  /-- The directory of pictures and fonts, unless it is that of the scene. -/
  assets : Option String := none
  /-- The settings file. -/
  config : Option String := none
  /-- The tag to report the display of. -/
  tag : Option String := none
  /-- The width of the host. -/
  containerWidth : Option Float := none
deriving Repr, Inhabited

/-- A command. -/
inductive Request where
  | render (args : RenderArgs)
  | tags
  | config (path : Option String)
  | help
  | version
deriving Repr, Inhabited

/-- The options of all commands. -/
inductive Key where
  | out
  | assets
  | config
  | tag
  | containerWidth
  | verbose
  | help
  | version
deriving Repr, BEq, DecidableEq, Inhabited

/-- Where on the command line a word stands. -/
inductive Scope where
  | top
  | render
  | tags
  | config
deriving Repr, BEq, DecidableEq, Inhabited

namespace Key

/-- The option has a value. -/
def takesValue : Key → Bool
  | out | assets | config | tag | containerWidth => true
  | verbose | help | version => false

end Key

namespace Scope

/-- The options that may be given in a scope, with their long names and short letters. -/
def keys : Scope → List (Key × String × Option Char)
  | top => [(.verbose, "verbose", some 'v'), (.help, "help", some 'h'),
      (.version, "version", some 'V')]
  | render => [(.out, "out", some 'o'), (.assets, "assets", none), (.config, "config", none),
      (.tag, "tag", none), (.containerWidth, "container-width", none),
      (.verbose, "verbose", some 'v'), (.help, "help", some 'h')]
  | tags => [(.verbose, "verbose", some 'v'), (.help, "help", some 'h')]
  | config => [(.config, "config", none), (.verbose, "verbose", some 'v'),
      (.help, "help", some 'h')]

/-- The option of a long name. -/
def longKey? (scope : Scope) (name : String) : Option Key :=
  (scope.keys.find? fun k => k.2.1 == name).map (·.1)

/-- The option of a short letter. -/
def shortKey? (scope : Scope) (letter : Char) : Option Key :=
  (scope.keys.find? fun k => k.2.2 == some letter).map (·.1)

/-- The scope of a command word. -/
def ofWord? : String → Option Scope
  | "render" => some render
  | "tags" => some tags
  | "config" => some config
  | _ => none

end Scope

/-! ### Values -/

/-- A number on the command line: a decimal numeral, or a name of infinity or of not-a-number in
letters of either case, behind an optional sign. -/
def numberOf? (text : String) : Option Float :=
  let (sign, rest) := Text.takeSign text.toList
  let named (x : Float) : Option Float := some (if sign == ['-'] then -x else x)
  match String.ofList (rest.map Char.toLower) with
  | "inf" | "infinity" => named (1.0 / 0.0)
  | "nan" => named (0.0 / 0.0)
  | _ => (Text.Decimal.ofChars? text.toList).map Text.Decimal.toFloat

/-- The value suits the option: paths are not empty and the width is a number. -/
def suits (key : Key) (value : String) : Bool :=
  match key with
  | .out | .assets | .config => !value.isEmpty
  | .containerWidth => (numberOf? value).isSome
  | _ => true

/-! ### Reading -/

/-- What has been read so far. -/
structure Given where
  scope : Scope := .top
  values : List (Key × String) := []
  positional : List String := []
  /-- All further words are positional. -/
  escaped : Bool := false
deriving Repr, Inhabited

/-- How reading goes on after a word. -/
inductive Next where
  | given (g : Given)
  /-- The next word is the value of this option. -/
  | value (g : Given) (key : Key)
  /-- The rest of the command line does not matter. -/
  | stop (request : Request)
  | usage
deriving Inhabited

namespace Given

/-- The value of an option. -/
def value? (g : Given) (key : Key) : Option String := g.values.lookup key

/-- Give an option its value, once. -/
def setValue (g : Given) (key : Key) (value : String) : Next :=
  if (g.value? key).isSome || !suits key value then .usage
  else .given { g with values := (key, value) :: g.values }

/-- Raise a flag. -/
def raise (g : Given) : Key → Next
  | .help => .stop .help
  | .version => .stop .version
  | _ => .given g

/-- A long option, without its dashes. -/
def long (g : Given) (word : List Char) : Next :=
  let name := word.takeWhile (· != '=')
  match g.scope.longKey? (String.ofList name), word.dropWhile (· != '=') with
  | none, _ => .usage
  | some key, '=' :: value =>
    if key.takesValue then g.setValue key (String.ofList value) else .usage
  | some key, _ => if key.takesValue then .value g key else g.raise key

/-- Short options run together, without their dash. -/
def short (g : Given) : List Char → Next
  | [] => .given g
  | letter :: rest =>
    match g.scope.shortKey? letter with
    | none => .usage
    | some key =>
      if key.takesValue then
        match rest with
        | [] => .value g key
        | '=' :: value => g.setValue key (String.ofList value)
        | value => g.setValue key (String.ofList value)
      else
        match g.raise key with
        | .given g => short g rest
        | next => next

/-- A word that is no option. -/
def word (g : Given) (w : String) : Next :=
  match g.scope with
  | .top =>
    match Scope.ofWord? w with
    | some scope => if g.escaped then .usage else .given { g with scope }
    | none => .usage
  | .render =>
    match g.positional with
    | [] => if w.isEmpty then .usage else .given { g with positional := [w] }
    | _ => .usage
  | _ => .usage

/-- Take in one word. -/
def take (g : Given) (w : String) : Next :=
  if g.escaped then g.word w
  else match w.toList with
    | ['-', '-'] => .given { g with escaped := true }
    | '-' :: '-' :: rest => g.long rest
    | '-' :: letter :: rest => g.short (letter :: rest)
    | _ => g.word w

/-- The word looks like an option, and so is no value of one. -/
def looksLikeOption (w : String) : Bool :=
  match w.toList with
  | '-' :: _ :: _ => true
  | _ => false

/-- The command, once every word has been read. The display of a tag needs the width of its
host. -/
def finish (g : Given) : Option Request :=
  match g.scope with
  | .top => none
  | .tags => some .tags
  | .config => some (.config (g.value? .config))
  | .render =>
    match g.positional, g.value? .out with
    | [scene], some out =>
      let containerWidth := (g.value? .containerWidth).bind numberOf?
      if (g.value? .tag).isSome && containerWidth.isNone then none
      else some (.render
        { scene, out, containerWidth
          assets := g.value? .assets
          config := g.value? .config
          tag := g.value? .tag })
    | _, _ => none

end Given

/-- The request for help on a command, whose words have to be those of a command. -/
def helpFor : List String → Option Request
  | [] => some .help
  | [w] => if w == "help" || (Scope.ofWord? w).isSome then some .help else none
  | _ => none

/-- Read the words of a command line; none if they do not fit. -/
def read (g : Given) : List String → Option Request
  | [] => g.finish
  | w :: rest =>
    if g.scope == .top && !g.escaped && w == "help" then helpFor rest
    else match g.take w with
      | .given g => read g rest
      | .stop request => some request
      | .usage => none
      | .value g key =>
        match rest with
        | [] => none
        | v :: rest =>
          if Given.looksLikeOption v then none
          else match g.setValue key v with
            | .given g => read g rest
            | _ => none

/-- The request that a command line makes. -/
def parse (args : List String) : Option Request := read {} args

end SceneCanvas.Command
