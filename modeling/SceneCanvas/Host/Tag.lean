import SceneCanvas.Text.Blank

/-!
# Host tags

A scene is shown inside a host page under a tag. The tag fixes the share of the host's width that
the scene takes, and its name says to which side it floats and whether it is hidden at first.
-/

namespace SceneCanvas.Host

/-- Where a scene stands in the flow of its host. -/
inductive Side where
  | left
  | right
  | center
deriving Repr, BEq, DecidableEq, Inhabited

/-- A tag and the share of the host's width that it gives a scene, in percent. -/
structure Tag where
  name : String
  share : Float
deriving Repr, Inhabited

namespace Tag

/-- The part occurs in the name. -/
def nameContains (name part : String) : Bool := Text.contains name.toList part.toList

/-- The side that a tag name asks for. -/
def sideOf (name : String) : Side :=
  if nameContains name "_left" || name == "scene" || name == "scene_spoiler" then .left
  else if nameContains name "_right" then .right
  else .center

/-- The tag name asks for the scene to be hidden until it is revealed. -/
def isSpoilerName (name : String) : Bool :=
  Text.startsWith name.toList.reverse "_spoiler".toList.reverse

/-- The side that the tag floats to. -/
def side (t : Tag) : Side := sideOf t.name

/-- The scene is hidden until it is revealed. -/
def spoiler (t : Tag) : Bool := isSpoilerName t.name

/-- The width that a host of the given width leaves for the scene. -/
def containerWidth (t : Tag) (hostWidth : Float) : Float := hostWidth * t.share / 100.0

/-- The tags that a scene can be shown under. -/
def all : List Tag :=
  [⟨"scene_full", 100.0⟩, ⟨"scene_full_spoiler", 100.0⟩,
    ⟨"scene", 49.5⟩, ⟨"scene_spoiler", 49.5⟩,
    ⟨"scene_right", 49.5⟩, ⟨"scene_right_spoiler", 49.5⟩,
    ⟨"scene_center", 49.5⟩, ⟨"scene_center_spoiler", 49.5⟩,
    ⟨"scene_small", 32.5⟩, ⟨"scene_small_spoiler", 32.5⟩,
    ⟨"scene_small_right", 32.5⟩, ⟨"scene_small_right_spoiler", 32.5⟩,
    ⟨"scene_small_center", 32.5⟩, ⟨"scene_small_center_spoiler", 32.5⟩]

/-- The tag of a name. -/
def find? (name : String) : Option Tag := all.find? fun t => t.name == name

end Tag

/-! ### Display size -/

/-- How large a surface is shown. -/
structure Display where
  scale : Float
  width : Float
  /-- The height in whole pixels, rounded down. -/
  height : UInt32
deriving Repr, Inhabited

/-- The display of a surface that fills the width of a container. A container without a positive
finite width shows nothing. -/
def Display.fit (container : Float) (sceneW sceneH : UInt32) : Display :=
  let scale :=
    if sceneW = 0 || !container.isFinite || container ≤ 0.0 then 0.0
    else container / sceneW.toFloat
  { scale, width := sceneW.toFloat * scale, height := (sceneH.toFloat * scale).floor.toUInt32 }

end SceneCanvas.Host
