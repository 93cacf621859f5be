import SceneCanvas.Script.Directive

/-!
# Plans

The meaning of a whole scene: its directives in order, and the last title and the last subtitle,
which are taken out of the order and painted after everything else.
-/

namespace SceneCanvas.Script

/-- A scene, read. -/
structure Plan where
  directives : List Directive := []
  title : Option TextLine := none
  subtitle : Option TextLine := none
deriving Repr, Inhabited

namespace Plan

/-- The plan with one more directive. -/
def add (plan : Plan) : Directive → Plan
  | .title line => { plan with title := some line }
  | .subtitle line => { plan with subtitle := some line }
  | directive => { plan with directives := plan.directives ++ [directive] }

/-- What a line, as it stands in a source, asks for. -/
def directiveOf? (line : List Char) : Option Directive :=
  Directive.ofLine? (Line.ofChars (Text.trim line))

/-- The directives of a source, in order. -/
def directivesOf (source : List Char) : List Directive :=
  (liveLines source).filterMap directiveOf?

/-- The plan that a source spells. -/
def ofChars (source : List Char) : Plan := (directivesOf source).foldl add {}

/-- The plan that a source spells. -/
def parse (source : String) : Plan := ofChars source.toList

/-- The captions in the order in which they are painted. -/
def captions (plan : Plan) (titleSize subtitleSize : Float32) : List Caption :=
  Caption.resolve plan.title plan.subtitle titleSize subtitleSize

/-- The keys of pictures among directives, each once, in the order of first use. -/
def keysOf (directives : List Directive) : List String :=
  directives.foldl (fun keys directive =>
    match directive with
    | .image picture => if keys.contains picture.key then keys else keys ++ [picture.key]
    | _ => keys) []

/-- The keys of all pictures in a plan, each once, in the order of first use. -/
def imageKeys (plan : Plan) : List String := keysOf plan.directives

/-- There is nothing to do. -/
def isEmpty (plan : Plan) : Bool :=
  plan.directives.isEmpty && plan.title.isNone && plan.subtitle.isNone

end Plan

end SceneCanvas.Script
