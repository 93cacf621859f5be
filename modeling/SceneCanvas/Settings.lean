import SceneCanvas.Error
import SceneCanvas.Json.Reader
import SceneCanvas.Scalar

/-!
# Settings

The settings of a scene, how they are read from JSON and written back. Two readers exist. The
lenient one takes what it can use: a size that is missing, unreadable or out of range falls back
to its default, and so does a flag. The strict one wants every known field to have the right type,
and takes sizes as they are; whether they suit a surface is for `validate` to say.
-/

namespace SceneCanvas

/-- The persisted settings of a scene. -/
structure Settings where
  /-- Surface width in pixels. -/
  sceneW : UInt32 := 1920
  /-- Surface height in pixels. -/
  sceneH : UInt32 := 1080
  /-- Preferred font family; empty for the system's sans-serif. -/
  defaultFont : String := ""
  /-- Title font size in pixels. -/
  titleSize : UInt32 := 192
  /-- Subtitle font size in pixels. -/
  subtitleSize : UInt32 := 96
  /-- Paint the marker at the centre of the scene. -/
  marker : Bool := true
  /-- Load all pictures of a scene before drawing. -/
  prefetch : Bool := true
deriving Repr, BEq, DecidableEq, Inhabited

namespace Settings

/-! ### Values of single settings -/

/-- The largest size that settings may ask for. -/
def maxSize : Int := 65535

/-- An integer as a size; the default unless it is one. -/
def sizeOr (n : Int) (default : UInt32) : UInt32 :=
  if 0 < n ∧ n ≤ maxSize then n.toNat.toUInt32 else default

/-- The integer that a JSON value offers for a size: the integer part of a number, or the integer
that a string starts with. -/
def integerOf? : Json → Option Int
  | .number (some (.int n)) => some n
  | .number (some (.float x)) => some (Scalar.truncate x)
  | .string (some s) => Text.lenientInt? s.toList
  | _ => none

/-- The size that a JSON value stands for, or the default. -/
def dimension (raw : Json) (default : UInt32) : UInt32 :=
  match integerOf? raw with
  | some n => sizeOr n default
  | none => default

/-- The flag that a JSON value stands for, or the default. -/
def flag (raw : Json) (default : Bool) : Bool :=
  match raw with
  | .bool b => b
  | .string (some s) =>
    match String.ofList (Text.trim s.toList) with
    | "true" => true
    | "false" => false
    | _ => default
  | _ => default

/-- The text that a JSON value stands for, or nothing. -/
def textOf : Json → String
  | .string (some s) => s
  | _ => ""

/-! ### Lenient reading -/

/-- The settings with one key set to a JSON value; none if there is no such key. -/
def setJson? (s : Settings) (key : String) (raw : Json) : Option Settings :=
  match key with
  | "sceneW" => some { s with sceneW := dimension raw 1920 }
  | "sceneH" => some { s with sceneH := dimension raw 1080 }
  | "titleSize" => some { s with titleSize := dimension raw 192 }
  | "subtitleSize" => some { s with subtitleSize := dimension raw 96 }
  | "defaultFont" => some { s with defaultFont := textOf raw }
  | "marker" => some { s with marker := flag raw true }
  | "prefetch" => some { s with prefetch := flag raw true }
  | _ => none

/-- The settings with one key set to a text, as from a form; none if there is no such key. -/
def set? (s : Settings) (key raw : String) : Option Settings :=
  s.setJson? key (.string (some raw))

/-- Set one member of an object; an unknown key changes nothing. -/
def setMember (s : Settings) (member : Option String × Json) : Settings :=
  match member with
  | (some key, raw) => (s.setJson? key raw).getD s
  | (none, _) => s

/-- Read settings from a text. Of a key that occurs twice the last value counts. -/
def ofChars (cs : List Char) : Except SceneError Settings :=
  match Json.parseChecked? cs with
  | none => .error .settingsSyntax
  | some (.object members) => .ok (members.foldl setMember {})
  | some _ => .error .settingsNotObject

/-- Read settings from a string. -/
def ofJson (text : String) : Except SceneError Settings := ofChars text.toList

/-- Read settings from the bytes of a file, which have to be UTF-8. -/
def ofBytes (bytes : ByteArray) : Except SceneError Settings :=
  match String.fromUTF8? bytes with
  | some text => ofJson text
  | none => .error .settingsSyntax

/-! ### Strict reading -/

/-- The names of the fields, in the order in which they are written. -/
def fieldNames : List String :=
  ["sceneW", "sceneH", "defaultFont", "titleSize", "subtitleSize", "marker", "prefetch"]

/-- An integer that fits 32 bits. -/
def wordOf? : Json → Option UInt32
  | .number (some (.int n)) =>
    if 0 ≤ n ∧ n < (Word.count32 : Int) then some n.toNat.toUInt32 else none
  | _ => none

/-- A flag, spelled as one. -/
def boolOf? : Json → Option Bool
  | .bool b => some b
  | _ => none

/-- A text, spelled as one. -/
def stringOf? : Json → Option String
  | .string text => text
  | _ => none

/-- The settings with one known field set to a value of its type. -/
def setField? (s : Settings) (key : String) (raw : Json) : Option Settings :=
  match key with
  | "sceneW" => (wordOf? raw).map fun n => { s with sceneW := n }
  | "sceneH" => (wordOf? raw).map fun n => { s with sceneH := n }
  | "titleSize" => (wordOf? raw).map fun n => { s with titleSize := n }
  | "subtitleSize" => (wordOf? raw).map fun n => { s with subtitleSize := n }
  | "defaultFont" => (stringOf? raw).map fun t => { s with defaultFont := t }
  | "marker" => (boolOf? raw).map fun b => { s with marker := b }
  | "prefetch" => (boolOf? raw).map fun b => { s with prefetch := b }
  | _ => none

/-- Set the members of an object. A known key must not come twice, and an unknown one is
ignored; `seen` holds the known keys so far. -/
def setMembers? (s : Settings) (seen : List String) :
    List (Option String × Json) → Option Settings
  | [] => some s
  | (none, _) :: _ => none
  | (some key, raw) :: rest =>
    if fieldNames.contains key then
      if seen.contains key then none
      else (s.setField? key raw).bind fun s => setMembers? s (key :: seen) rest
    else setMembers? s seen rest

/-- Set the fields in order from a list of values, which may end early. -/
def setItems? (s : Settings) : List String → List Json → Option Settings
  | _, [] => some s
  | [], _ :: _ => none
  | key :: keys, raw :: rest => (s.setField? key raw).bind fun s => setItems? s keys rest

/-- Read settings from a text whose fields have to have their types: an object, or an array of the
fields in order. -/
def ofJsonStrict? (text : String) : Option Settings :=
  match Json.parseLax? text.toList with
  | some (.object members) => setMembers? {} [] members
  | some (.array items) => setItems? {} fieldNames items
  | _ => none

/-! ### Writing -/

/-- The members of a settings object and the spellings of their values. -/
def members (s : Settings) : List (String × List Char) :=
  [("sceneW", (toString s.sceneW.toNat).toList), ("sceneH", (toString s.sceneH.toNat).toList),
    ("defaultFont", Json.quote s.defaultFont.toList),
    ("titleSize", (toString s.titleSize.toNat).toList),
    ("subtitleSize", (toString s.subtitleSize.toNat).toList),
    ("marker", (toString s.marker).toList), ("prefetch", (toString s.prefetch).toList)]

/-- One member of an object on a line of its own, indented by two spaces. -/
def memberLine (member : String × List Char) : List Char :=
  [' ', ' '] ++ Json.quote member.1.toList ++ [':', ' '] ++ member.2

/-- The settings as a JSON object, one member a line. -/
def toChars (s : Settings) : List Char :=
  ['\x7b', '\n'] ++ [',', '\n'].intercalate (s.members.map memberLine) ++ ['\n', '\x7d']

/-- The settings as a JSON object. -/
def toJson (s : Settings) : String := String.ofList s.toChars

/-! ### Checking -/

/-- A side of the surface lies within the sizes a surface can have. -/
def checkSide (name : String) (value : UInt32) : Except SceneError Unit :=
  if value = 0 ∨ 65535 < value then .error (.sizeOutOfRange name value) else .ok ()

/-- The sizes suit a surface; of two faults the width's is reported. -/
def validate (s : Settings) : Except SceneError Unit := do
  checkSide "sceneW" s.sceneW
  checkSide "sceneH" s.sceneH

end Settings

end SceneCanvas
