import SceneCanvas.Render.Canvas

/-!
# Running a plan

A plan is carried out in steps: its directives in order, then its captions. A step that fails is
passed over. Before every step the caller is asked whether to go on, so a run that is cancelled
has carried out the first steps of the plan and nothing else.
-/

namespace SceneCanvas.Render

open Script (Caption Directive Plan)

/-- One step of a run. -/
inductive Step where
  | effect (directive : Directive)
  | caption (caption : Caption)
deriving Inhabited

/-- How a run ended. -/
inductive Ending where
  | completed
  /-- The run was cancelled; the canvas holds part of a picture. -/
  | cancelled
deriving Repr, BEq, DecidableEq, Inhabited

/-- Answers to the question whether to stop, asked for the `n`-th time with these assets seen. -/
abbrev Poll := Nat → Asset.Cache → Bool

namespace Poll

/-- Never stop. -/
def never : Poll := fun _ _ => false

/-- The answers from the `n`-th one on. -/
def after (poll : Poll) (n : Nat) : Poll := fun i => poll (n + i)

end Poll

/-- The steps of a plan. -/
def stepsOf (settings : Settings) (plan : Plan) : List Step :=
  plan.directives.map .effect
    ++ (plan.captions settings.titleSize.toFloat32 settings.subtitleSize.toFloat32).map .caption

namespace Canvas

/-- Carry out a step, passing over a failure. -/
def perform (r : Renderer) (c : Canvas) : Step → Canvas
  | .effect directive => (c.apply r directive).1
  | .caption caption => (c.paint r caption).1

/-- Carry out steps until told to stop. -/
def performAll (r : Renderer) (poll : Poll) (asked : Nat) (c : Canvas) :
    List Step → Ending × Canvas
  | [] => (.completed, c)
  | step :: rest =>
    if poll asked c.resources.assets then (.cancelled, c)
    else performAll r poll (asked + 1) (c.perform r step) rest

/-- Carry out a plan until told to stop. -/
def run (r : Renderer) (poll : Poll) (c : Canvas) (plan : Plan) : Ending × Canvas :=
  let c := if r.settings.prefetch then c.prefetch r plan else c
  performAll r poll 0 c (stepsOf r.settings plan)

end Canvas

/-! ### Whole scenes -/

/-- A renderer whose settings have been checked. -/
structure Runner extends Renderer where
  valid : settings.validate = .ok ()

namespace Runner

/-- The runner for some settings, unless they do not suit a surface. -/
def make (settings : Settings) (storage : Asset.Storage) : Except SceneError Runner :=
  match h : settings.validate with
  | .ok () => .ok { settings, storage, valid := h }
  | .error e => .error e

/-- A canvas with a transparent surface. -/
def blank (r : Runner) (resources : Resources) : Except SceneError Canvas :=
  return ⟨← Surface.blank r.settings.sceneW.toNat r.settings.sceneH.toNat, resources⟩

/-- A transparent surface with the marker on it, if the settings ask for one. -/
def start (r : Runner) (resources : Resources) : Except SceneError Canvas := do
  let c ← r.blank resources
  if r.settings.marker then
    match c.drawMarker r.raster with
    | (c, none) => return c
    | (_, some e) => throw e
  else return c

/-- What a scene without directives looks like. -/
def baseline (r : Runner) (resources : Resources) : Except SceneError Surface :=
  return (← r.start resources).surface

/-- Carry out a source on a fresh surface until told to stop. -/
def runSource (r : Runner) (poll : Poll) (resources : Resources) (source : String) :
    Except SceneError (Ending × Canvas) := do
  let c ← r.start resources
  let plan := Plan.parse source
  if plan.isEmpty then return (.completed, c)
  return c.run r.toRenderer poll plan

/-- Render a source to completion. -/
def render (r : Runner) (resources : Resources) (source : String) :
    Except SceneError (Surface × Resources) := do
  let (_, c) ← r.runSource .never resources source
  return (c.surface, c.resources)

/-- Render a source unless told to stop, which is also asked before anything is done. A surface is
handed out only if the render was completed. -/
def renderUnless (r : Runner) (poll : Poll) (resources : Resources) (source : String) :
    Except SceneError (Option Surface × Resources) := do
  if poll 0 resources.assets then return (none, resources)
  match ← r.runSource (poll.after 1) resources source with
  | (.completed, c) => return (some c.surface, c.resources)
  | (.cancelled, c) => return (none, c.resources)

end Runner

end SceneCanvas.Render
