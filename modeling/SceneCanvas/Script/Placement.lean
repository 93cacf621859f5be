import SceneCanvas.Geometry

/-!
# Image placement

Where a picture lands on the scene. The tokens after a picture's name are read from left to right:
a modifier changes the placement, and any other token is a further segment of the picture's path.
-/

namespace SceneCanvas.Script

/-- Where and how one picture is drawn. The anchor is a fraction of the picture's size, the
position a fraction of the scene's size, and the sign of a scale factor mirrors. -/
structure Placement (α : Type) where
  anchor : Vec α
  position : Vec α
  scale : Vec α
deriving Repr, BEq, DecidableEq, Inhabited

/-- A picture to draw: the key that it is looked up by and its placement. -/
structure ImageRef (α : Type) where
  key : String
  placement : Placement α
deriving Repr, BEq, DecidableEq, Inhabited

namespace Placement

variable {α : Type} [Scalar α]

/-- Bottom centre on bottom centre, unscaled. -/
def standard : Placement α where
  anchor := ⟨0.5, 1.0⟩
  position := ⟨0.5, 1.0⟩
  scale := ⟨1.0, 1.0⟩

/-- The placement after one modifier; none if the token is no modifier. -/
def modify? (p : Placement α) (token : String) : Option (Placement α) :=
  match token with
  | "<" => some { p with anchor.x := 0.0, position.x := 0.0 }
  | ">" => some { p with anchor.x := 0.0, position.x := 1.0, scale.x := -1.0 }
  | "FLIP" => some { p with anchor.x := 1.0, scale.x := p.scale.x * -1.0 }
  | "+" => some { p with anchor := ⟨0.5, 0.5⟩, position := ⟨0.5, 0.5⟩ }
  | _ => none

/-- The placement after one token, and whether the token was a modifier. -/
def modify (p : Placement α) (token : String) : Placement α := (p.modify? token).getD p

/-- The map from the picture's pixels to the scene's. -/
def transform (p : Placement α) (scene image : Vec α) : Affine α :=
  Affine.translate ⟨scene.x * p.position.x, scene.y * p.position.y⟩ * Affine.scale p.scale
    * Affine.translate ⟨-image.x * p.anchor.x, -image.y * p.anchor.y⟩

end Placement

/-- The token changes a placement rather than naming a path segment. -/
def isPlacementModifier (token : String) : Bool :=
  token == "<" || token == ">" || token == "FLIP" || token == "+"

namespace ImageRef

variable {α : Type} [Scalar α]

/-- One step of reading the tokens: the path segments so far and the placement so far. -/
def readToken (state : List String × Placement α) (token : String) :
    List String × Placement α :=
  match state.2.modify? token with
  | some p => (state.1, p)
  | none => (state.1 ++ [token], state.2)

/-- The picture that an identifier and the tokens after it call for. -/
def resolve (identifier : String) (tokens : List String) : ImageRef α :=
  let (segments, placement) := tokens.foldl readToken ([identifier], .standard)
  ⟨"/".intercalate segments, placement⟩

end ImageRef

end SceneCanvas.Script
