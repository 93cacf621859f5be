import SceneCanvas.Host.Tag
import SceneCanvas.Host.Viewport
import SceneCanvas.Render.Run

/-!
# Scene blocks

A block shows a scene in a host: it holds the last surface that was rendered for it, and the size
at which it is shown, which follows the width of the host's viewport. A block can be cancelled,
after which it never changes again, and dropped, which cancels it and takes its listener out of
the viewport.

A `Page` is a viewport with its blocks. A block is known by its number, which it keeps when it is
dropped. Others than blocks may listen to the viewport as well.
-/

namespace SceneCanvas.Host

open Render (Resources Runner)

/-- A scene mounted in a host. -/
structure Block where
  tag : Tag
  /-- The size of the scene, as it was set when the block was mounted. -/
  sceneW : UInt32
  sceneH : UInt32
  surface : Option Surface := none
  display : Display
  /-- The number of the block's listener in the viewport. -/
  listener : Nat
  cancelled : Bool := false
  /-- The block has been taken off the page. -/
  dropped : Bool := false
deriving Inhabited

namespace Block

/-- The display of a block in a host of the given width. -/
def displayIn (b : Block) (hostWidth : Float) : Display :=
  .fit (b.tag.containerWidth hostWidth) b.sceneW b.sceneH

/-- Tell a block of a width; a cancelled block does not listen. -/
def rescale (b : Block) (hostWidth : Float) : Block :=
  if b.cancelled then b else { b with display := b.displayIn hostWidth }

end Block

/-- A viewport and the blocks mounted in it. A block listens to the viewport under its number, and
a listener without a number is no block's. -/
structure Page where
  viewport : Viewport (Option Nat)
  blocks : List Block := []
  resources : Resources := {}
deriving Inhabited

namespace Page

/-- Change one block. -/
def modifyBlock (p : Page) (number : Nat) (f : Block → Block) : Page :=
  { p with blocks := p.blocks.modify number f }

/-- Tell the block that a listener is of, if there is one, of a width. -/
def tell (width : Float) (p : Page) (listener : Nat × Option Nat) : Page :=
  match listener.2 with
  | some number => p.modifyBlock number (·.rescale width)
  | none => p

/-- Change the width of the host. -/
def resize (p : Page) (width : Float) : Page :=
  let (told, viewport) := p.viewport.resize width
  told.foldl (tell width) { p with viewport }

/-- Listen to the viewport without a block; the answer is the number of the listener. -/
def listen (p : Page) : Nat × Page :=
  let (id, viewport) := p.viewport.subscribe none
  (id, { p with viewport })

/-- Take out a listener that is no block's. -/
def unlisten (p : Page) (id : Nat) : Page :=
  if (id, none) ∈ p.viewport.listeners then { p with viewport := p.viewport.unsubscribe id } else p

/-- Render a source for a block again. The answer is whether something was rendered: a cancelled
block, and a number without a block, keep what they have. -/
def rerender (r : Runner) (p : Page) (number : Nat) (source : String) :
    Except SceneError (Bool × Page) := do
  let cancelled := (p.blocks[number]?.map Block.cancelled).getD true
  let (surface, resources) ← r.renderUnless (fun _ _ => cancelled) p.resources source
  let p := { p with resources }
  match surface with
  | none => return (false, p)
  | some s => return (true, p.modifyBlock number fun b => { b with surface := some s })

/-- Mount a block and render a source for it. The answer is the number of the block. -/
def mount (r : Runner) (p : Page) (tag : Tag) (source : String) :
    Except SceneError (Nat × Page) := do
  let number := p.blocks.length
  let (listener, viewport) := p.viewport.subscribe (some number)
  let (sceneW, sceneH) := (r.settings.sceneW, r.settings.sceneH)
  let display := Display.fit (tag.containerWidth p.viewport.width) sceneW sceneH
  let block : Block := { tag, sceneW, sceneH, display, listener }
  let (_, p) ← rerender r { p with viewport, blocks := p.blocks ++ [block] } number source
  return (number, p)

/-- Cancel a block. -/
def cancel (p : Page) (number : Nat) : Page :=
  p.modifyBlock number fun b => { b with cancelled := true }

/-- Drop a block: cancel it and take its listener out. -/
def drop (p : Page) (number : Nat) : Page :=
  match p.blocks[number]? with
  | none => p
  | some b =>
    { p with viewport := p.viewport.unsubscribe b.listener }.modifyBlock number fun b =>
      { b with cancelled := true, dropped := true }

end Page

end SceneCanvas.Host
