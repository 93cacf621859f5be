import SceneCanvas.Geometry

/-!
# Captions

The title and the subtitle of a scene, and where they are written. A modifier after a caption's
text moves it to an edge: `<` and `>` settle the horizontal placement, `^` and `v` the vertical
one. The title's modifiers move both captions, the subtitle's only the subtitle. A subtitle
without a modifier of its own stands a fixed distance below the place that it inherits.
-/

namespace SceneCanvas.Script

/-- Which point of a line of text its position speaks of, horizontally. -/
inductive Align where
  | left
  | center
  | right
deriving Repr, BEq, DecidableEq, Inhabited

/-- Which point of a line of text its position speaks of, vertically. -/
inductive Baseline where
  | top
  | middle
  | bottom
deriving Repr, BEq, DecidableEq, Inhabited

/-- How one line of text is written. -/
structure TextLayout where
  /-- Font size in pixels. -/
  size : Float32
  align : Align
  baseline : Baseline
  /-- Position as a fraction of the scene's size. -/
  position : Vec Float
  bold : Bool
deriving Repr, BEq, Inhabited

/-- A title or subtitle as written. -/
structure TextLine where
  text : String
  modifiers : List String
deriving Repr, BEq, DecidableEq, Inhabited

/-- A line of text ready to be painted. -/
structure Caption where
  text : String
  layout : TextLayout
deriving Repr, BEq, Inhabited

namespace TextLayout

/-- Bold, in the middle of the scene. -/
def centered (size : Float32) : TextLayout where
  size := size
  align := .center
  baseline := .middle
  position := ⟨0.5, 0.5⟩
  bold := true

/-- The layout after one modifier; none if the token is no modifier. -/
def modify? (layout : TextLayout) (token : String) : Option TextLayout :=
  match token with
  | "<" => some { layout with position.x := 0.05, align := .left }
  | ">" => some { layout with position.x := 0.95, align := .right }
  | "^" => some { layout with position.y := 0.05, baseline := .top }
  | "v" => some { layout with position.y := 0.95, baseline := .bottom }
  | _ => none

/-- The layout after one token, which changes nothing if it is no modifier. -/
def modify (layout : TextLayout) (token : String) : TextLayout :=
  (layout.modify? token).getD layout

/-- The layout with its height on the scene replaced. -/
def atHeight (layout : TextLayout) (y : Float) : TextLayout :=
  { layout with position.y := y }

end TextLayout

namespace Caption

/-- How far a subtitle without modifiers stands below the place that it inherits. -/
def subtitleOffset : Float := 0.1

/-- The token moves a caption. -/
def isModifier (token : String) : Bool :=
  token == "<" || token == ">" || token == "^" || token == "v"

/-- The layouts of title and subtitle after one token of the title. At the bottom, a title that
has a subtitle makes room for it. -/
def modifyBoth (paired : Bool) (layouts : TextLayout × TextLayout) (token : String) :
    TextLayout × TextLayout :=
  let title := layouts.1.modify token
  let subtitle := layouts.2.modify token
  if token == "v" && paired then (title.atHeight 0.9, subtitle.atHeight 0.85)
  else (title, subtitle)

/-- The layout of a subtitle that inherits a place. -/
def placeBelow (inherited : TextLayout) (modifiers : List String) : TextLayout :=
  let layout := modifiers.foldl TextLayout.modify inherited
  if modifiers.any isModifier then layout
  else layout.atHeight (layout.position.y + subtitleOffset)

/-- The captions of a scene in the order in which they are painted, the title first. -/
def resolve (title subtitle : Option TextLine) (titleSize subtitleSize : Float32) :
    List Caption :=
  match title with
  | none =>
    subtitle.toList.map fun s =>
      ⟨s.text, s.modifiers.foldl TextLayout.modify (.centered subtitleSize)⟩
  | some t =>
    let (top, inherited) := t.modifiers.foldl (modifyBoth subtitle.isSome)
      (.centered titleSize, .centered subtitleSize)
    ⟨t.text, top⟩ :: subtitle.toList.map fun s => ⟨s.text, placeBelow inherited s.modifiers⟩

end Caption

end SceneCanvas.Script
