import SceneCanvas.Host.Block
import SceneCanvas.Proofs.Cancellation

/-!
# What can be done to a page

A page is used by resizing its viewport and by mounting, rendering, cancelling and dropping blocks,
in any order and by any runners. Others may listen to the viewport as well, and share the tables of
pictures and fonts that the runners look things up in.

* `Host.Page.Becomes` says what each deed makes of a page, and `Host.Page.exists_perform_eq_ok` that
  it makes that of it and never fails. In particular, what is put down as rendered are complete
  renders (`Host.Rendering.Yields`), since a render that is not told to stop is one.
* `Host.Block.Passes` says what a deed can make of one block. A block that has been cancelled can
  only be dropped (`Host.Block.Passes.of_cancelled`).
-/

namespace SceneCanvas.Host

open Render (Resources Runner)

/-! ### Renderings -/

/-- A source that was rendered for a block, the runner, and what had been looked up before. -/
structure Rendering where
  block : Nat
  runner : Runner
  resources : Resources
  source : String

namespace Rendering

/-- The surface is that of a complete render. -/
def Yields (ρ : Rendering) (surface : Surface) : Prop :=
  ∃ rest, ρ.runner.render ρ.resources ρ.source = .ok (surface, rest)

/-- The last rendering for a block. -/
def lastFor (log : List Rendering) (number : Nat) : Option Rendering :=
  (log.filter fun ρ => ρ.block == number).getLast?

theorem lastFor_concat (log : List Rendering) (ρ : Rendering) (number : Nat) :
    lastFor (log ++ [ρ]) number = if ρ.block = number then some ρ else lastFor log number := by
  rw [lastFor, List.filter_append, List.filter_singleton]
  by_cases h : ρ.block = number
  · rw [if_pos h, h, beq_self_eq_true, cond_true, List.getLast?_concat]
  · rw [if_neg h, beq_eq_false_iff_ne.mpr h, cond_false, List.append_nil, lastFor]

end Rendering

/-! ### Deeds -/

/-- Something that is done to a page, by its user or by others. -/
inductive Deed where
  | resize (width : Float)
  | mount (r : Runner) (tag : Tag) (source : String)
  | rerender (r : Runner) (number : Nat) (source : String)
  | cancel (number : Nat)
  | drop (number : Nat)
  /-- Listen to the viewport without a block. -/
  | listen
  /-- Take out a listener that is no block's. -/
  | unlisten (id : Nat)
  /-- Look something up elsewhere, or go over to other tables. -/
  | restock (resources : Resources)

namespace Deed

/-- The width that a deed sets. -/
def width? : Deed → Option Float
  | resize width => some width
  | _ => none

/-- The tag and the size of the scene that a deed mounts. -/
def frame? : Deed → Option (Tag × UInt32 × UInt32)
  | mount r tag _ => some (tag, r.settings.sceneW, r.settings.sceneH)
  | _ => none

end Deed

namespace Page

/-- A page without blocks, and a viewport without listeners. -/
def start (width : Float) (resources : Resources) : Page := { viewport := { width }, resources }

/-- Do something to a page. The answer is what was rendered for a block, if anything was. -/
def perform (p : Page) : Deed → Except SceneError (Option Rendering × Page)
  | .resize width => return (none, p.resize width)
  | .mount r tag source => do
    let (number, after) ← p.mount r tag source
    return (some ⟨number, r, p.resources, source⟩, after)
  | .rerender r number source => do
    let (rendered, after) ← p.rerender r number source
    return (if rendered then some ⟨number, r, p.resources, source⟩ else none, after)
  | .cancel number => return (none, p.cancel number)
  | .drop number => return (none, p.drop number)
  | .listen => return (none, p.listen.2)
  | .unlisten id => return (none, p.unlisten id)
  | .restock resources => return (none, { p with resources })

/-- Do one thing after the other. The answer is everything that was rendered. -/
def performAll (p : Page) : List Deed → Except SceneError (List Rendering × Page)
  | [] => return ([], p)
  | deed :: deeds => do
    let (rendering?, p) ← p.perform deed
    let (log, p) ← p.performAll deeds
    return (rendering?.toList ++ log, p)

end Page

namespace Block

/-- A block as it is mounted, with the surface that was rendered for it. -/
def mounted (r : Runner) (tag : Tag) (hostWidth : Float) (listener : Nat) (surface : Surface) :
    Block where
  tag := tag
  sceneW := r.settings.sceneW
  sceneH := r.settings.sceneH
  surface := some surface
  display := .fit (tag.containerWidth hostWidth) r.settings.sceneW r.settings.sceneH
  listener := listener

/-- What a block has been mounted with. -/
def frame (b : Block) : Tag × UInt32 × UInt32 := (b.tag, b.sceneW, b.sceneH)

/-- The listener of a block, and whether it has been taken out. -/
def registration (b : Block) : Nat × Bool := (b.listener, b.dropped)

variable (b : Block) (width : Float)

/-- Being told of a width changes at most the display. -/
theorem map_rescale {α : Type} {g : Block → α} (hg : ∀ b display, g { b with display } = g b) :
    g (b.rescale width) = g b := by
  rw [rescale]
  split
  next => rfl
  next => exact hg b _

theorem rescale_of_cancelled {b : Block} (h : b.cancelled = true) : b.rescale width = b :=
  if_pos h

theorem rescale_rescale : (b.rescale width).rescale width = b.rescale width := by
  cases h : b.cancelled with
  | true => rw [rescale_of_cancelled width h, rescale_of_cancelled width h]
  | false => simp [rescale, displayIn, h]

end Block

/-! ### The blocks of a page -/

namespace Page

variable {α : Type} {g : Block → α} {p : Page} {b : Block} {number : Nat}

theorem getElem?_modifyBlock (p : Page) (number : Nat) (f : Block → Block) (n : Nat) :
    (p.modifyBlock number f).blocks[n]? = p.blocks[n]?.map fun b => if number = n then f b else b :=
  List.getElem?_modify f number p.blocks n

/-- What blocks have that no change touches. -/
private theorem map_eq_of_getElem? {blocks blocks' : List Block} {change : Nat → Block → Block}
    (h : ∀ n, blocks'[n]? = blocks[n]?.map (change n)) (hg : ∀ n b, g (change n b) = g b) :
    blocks'.map g = blocks.map g := by
  refine List.ext_getElem? fun n => ?_
  rw [List.getElem?_map, List.getElem?_map, h, Option.map_map]
  congr 1
  funext b
  exact hg n b

theorem map_modifyBlock {f : Block → Block} (hf : ∀ b, g (f b) = g b) (p : Page) (number : Nat) :
    (p.modifyBlock number f).blocks.map g = p.blocks.map g := by
  refine map_eq_of_getElem? (p.getElem?_modifyBlock number f) fun n b => ?_
  split
  next => exact hf b
  next => rfl

/-- A block is told of a width if it listens, however often. -/
private theorem getElem?_foldl_tell (width : Float) (told : List (Nat × Option Nat)) (p : Page)
    (n : Nat) : (told.foldl (tell width) p).blocks[n]?
      = p.blocks[n]?.map fun b => if some n ∈ told.map Prod.snd then b.rescale width else b := by
  induction told generalizing p with
  | nil => simp
  | cons l told ih =>
    have htell : (tell width p l).blocks[n]?
        = p.blocks[n]?.map fun b => if l.2 = some n then b.rescale width else b := by
      rw [tell]
      split
      next number hl => simp [getElem?_modifyBlock, hl]
      next hl => simp [hl]
    rw [List.foldl_cons, ih, htell, Option.map_map]
    congr 1
    funext b
    by_cases hl : l.2 = some n <;> by_cases htold : some n ∈ told.map Prod.snd <;>
      simp [hl, htold, Block.rescale_rescale, eq_comm]

theorem getElem?_resize (p : Page) (width : Float) (n : Nat) :
    (p.resize width).blocks[n]? = p.blocks[n]?.map fun b =>
      if some n ∈ p.viewport.listeners.map Prod.snd then b.rescale width else b :=
  getElem?_foldl_tell width p.viewport.listeners _ n

theorem map_resize (hg : ∀ b display, g { b with display } = g b) (p : Page) (width : Float) :
    (p.resize width).blocks.map g = p.blocks.map g := by
  refine map_eq_of_getElem? (p.getElem?_resize width) fun n b => ?_
  split
  next => exact b.map_rescale width hg
  next => rfl

private theorem viewport_foldl_tell (width : Float) (told : List (Nat × Option Nat)) (p : Page) :
    (told.foldl (tell width) p).viewport = p.viewport := by
  induction told generalizing p with
  | nil => rfl
  | cons l told ih =>
    rw [List.foldl_cons, ih, tell]
    split <;> rfl

theorem viewport_resize (p : Page) (width : Float) :
    (p.resize width).viewport = { p.viewport with width } :=
  viewport_foldl_tell width p.viewport.listeners _

theorem getElem?_drop (p : Page) (number n : Nat) :
    (p.drop number).blocks[n]? = p.blocks[n]?.map fun b =>
      if number = n then { b with cancelled := true, dropped := true } else b := by
  rw [drop]
  split
  next hnone =>
    cases hb : p.blocks[n]? with
    | none => rfl
    | some b =>
      have hne : number ≠ n := by
        rintro rfl
        rw [hnone] at hb
        cases hb
      rw [Option.map_some, if_neg hne]
  next => exact getElem?_modifyBlock _ _ _ _

theorem map_drop (hg : ∀ b : Block, g { b with cancelled := true, dropped := true } = g b)
    (p : Page) (number : Nat) : (p.drop number).blocks.map g = p.blocks.map g := by
  refine map_eq_of_getElem? (p.getElem?_drop number) fun n b => ?_
  split
  next => exact hg b
  next => rfl

theorem viewport_drop (hb : p.blocks[number]? = some b) :
    (p.drop number).viewport = p.viewport.unsubscribe b.listener := by
  rw [drop, hb]
  rfl

theorem width_drop (p : Page) (number : Nat) :
    (p.drop number).viewport.width = p.viewport.width := by
  rw [drop]
  split <;> rfl

/-! ### What a deed can do -/

/-- The page with a surface rendered for a block. -/
def withSurface (p : Page) (number : Nat) (surface : Surface) (resources : Resources) : Page :=
  { p with resources }.modifyBlock number fun b => { b with surface := some surface }

/-- The page with one more block. -/
def withBlock (p : Page) (r : Runner) (tag : Tag) (surface : Surface) (resources : Resources) :
    Page where
  viewport := (p.viewport.subscribe (some p.blocks.length)).2
  blocks := p.blocks ++ [.mounted r tag p.viewport.width p.viewport.nextId surface]
  resources := resources

/-- What a deed makes of a page. -/
inductive Becomes (p : Page) : Deed → Option Rendering → Page → Prop where
  | resize (width : Float) : Becomes p (.resize width) none (p.resize width)
  | mount {r : Runner} {source : String} {surface : Surface} {rest : Resources} (tag : Tag)
      (h : r.render p.resources source = .ok (surface, rest)) :
      Becomes p (.mount r tag source) (some ⟨p.blocks.length, r, p.resources, source⟩)
        (p.withBlock r tag surface rest)
  | rerender {r : Runner} {number : Nat} {source : String} {surface : Surface} {rest : Resources}
      {b : Block} (hb : p.blocks[number]? = some b) (hgo : b.cancelled = false)
      (h : r.render p.resources source = .ok (surface, rest)) :
      Becomes p (.rerender r number source) (some ⟨number, r, p.resources, source⟩)
        (p.withSurface number surface rest)
  /-- The block has been cancelled, or there is none. -/
  | idle (r : Runner) {number : Nat} (source : String)
      (h : ∀ b, p.blocks[number]? = some b → b.cancelled = true) :
      Becomes p (.rerender r number source) none p
  | cancel (number : Nat) : Becomes p (.cancel number) none (p.cancel number)
  | drop (number : Nat) : Becomes p (.drop number) none (p.drop number)
  | listen : Becomes p .listen none p.listen.2
  | unlisten (id : Nat) : Becomes p (.unlisten id) none (p.unlisten id)
  | restock (resources : Resources) : Becomes p (.restock resources) none { p with resources }

/-- A render that is not told to stop is a complete one. -/
theorem exists_render_eq_ok (r : Runner) (resources : Resources) (source : String) :
    ∃ surface rest, r.render resources source = .ok (surface, rest) ∧
      r.renderUnless (fun _ _ => false) resources source = .ok (some surface, rest) := by
  obtain ⟨start, hstart, -⟩ := r.exists_start_eq_ok resources
  exact ⟨_, _, Runner.render_eq_ok hstart source, Runner.renderUnless_never hstart source⟩

/-- **A cancelled block** is not rendered again. -/
theorem rerender_of_cancelled (h : ∀ b, p.blocks[number]? = some b → b.cancelled = true)
    (r : Runner) (source : String) : p.rerender r number source = .ok (false, p) := by
  have hstop : (p.blocks[number]?.map Block.cancelled).getD true = true := by
    cases hb : p.blocks[number]? with
    | none => rfl
    | some b => exact h b hb
  rw [rerender, hstop, Runner.renderUnless_of_stop rfl]
  rfl

section

variable {r : Runner} {source : String} {surface : Surface} {rest : Resources}
  (h : r.renderUnless (fun _ _ => false) p.resources source = .ok (some surface, rest))

include h

/-- **A block that has not been cancelled** is rendered again. -/
theorem rerender_of_live (hb : p.blocks[number]? = some b) (hgo : b.cancelled = false) :
    p.rerender r number source = .ok (true, p.withSurface number surface rest) := by
  rw [rerender, hb, Option.map_some, hgo, Option.getD_some, h]
  rfl

theorem mount_eq_ok (tag : Tag) :
    p.mount r tag source = .ok (p.blocks.length, p.withBlock r tag surface rest) := by
  -- the page on which the new block, which is the last one, is rendered
  let block : Block :=
    { Block.mounted r tag p.viewport.width p.viewport.nextId surface with surface := none }
  let before : Page :=
    { p with
      viewport := (p.viewport.subscribe (some p.blocks.length)).2
      blocks := p.blocks ++ [block] }
  have hlast : before.blocks[p.blocks.length]? = some block := List.getElem?_concat_length
  have hrerender : before.rerender r p.blocks.length source
      = .ok (true, before.withSurface p.blocks.length surface rest) :=
    rerender_of_live h hlast rfl
  have hafter : before.withSurface p.blocks.length surface rest
      = p.withBlock r tag surface rest := by
    simp [before, block, withSurface, withBlock, modifyBlock, Block.mounted,
      List.modify_eq_take_drop]
  rw [hafter] at hrerender
  exact bind_eq_ok_iff.mpr ⟨_, hrerender, rfl⟩

end

/-- **Everything can be done**, and this is what comes of it. -/
theorem exists_perform_eq_ok (p : Page) (deed : Deed) :
    ∃ rendering? after, p.perform deed = .ok (rendering?, after) ∧
      p.Becomes deed rendering? after := by
  cases deed with
  | resize width => exact ⟨_, _, rfl, .resize width⟩
  | mount r tag source =>
    obtain ⟨surface, rest, hrender, hunless⟩ := exists_render_eq_ok r p.resources source
    refine ⟨_, _, ?_, .mount tag hrender⟩
    rw [perform, mount_eq_ok hunless]
    rfl
  | rerender r number source =>
    by_cases h : ∀ b, p.blocks[number]? = some b → b.cancelled = true
    · refine ⟨_, _, ?_, .idle r source h⟩
      rw [perform, rerender_of_cancelled h]
      rfl
    · push Not at h
      obtain ⟨b, hb, hgo⟩ := h
      have hgo := Bool.eq_false_iff.mpr hgo
      obtain ⟨surface, rest, hrender, hunless⟩ := exists_render_eq_ok r p.resources source
      refine ⟨_, _, ?_, .rerender hb hgo hrender⟩
      rw [perform, rerender_of_live hunless hb hgo]
      rfl
  | cancel number => exact ⟨_, _, rfl, .cancel number⟩
  | drop number => exact ⟨_, _, rfl, .drop number⟩
  | listen => exact ⟨_, _, rfl, .listen⟩
  | unlisten id => exact ⟨_, _, rfl, .unlisten id⟩
  | restock resources => exact ⟨_, _, rfl, .restock resources⟩

variable {p' : Page} {deed : Deed} {rendering? : Option Rendering}

theorem becomes_of_perform_eq_ok (h : p.perform deed = .ok (rendering?, p')) :
    p.Becomes deed rendering? p' := by
  obtain ⟨_, _, hperform, hbecomes⟩ := p.exists_perform_eq_ok deed
  rw [h] at hperform
  cases hperform
  exact hbecomes

theorem exists_performAll_eq_ok (p : Page) (deeds : List Deed) :
    ∃ log after, p.performAll deeds = .ok (log, after) := by
  induction deeds generalizing p with
  | nil => exact ⟨_, _, rfl⟩
  | cons deed deeds ih =>
    obtain ⟨rendering?, next, hperform, -⟩ := p.exists_perform_eq_ok deed
    obtain ⟨later, after, hall⟩ := ih next
    refine ⟨rendering?.toList ++ later, after, ?_⟩
    exact bind_eq_ok_iff.mpr ⟨_, hperform, bind_eq_ok_iff.mpr ⟨_, hall, rfl⟩⟩

/-- The first of several deeds, and the others. -/
theorem becomes_of_performAll_cons_eq_ok {deeds : List Deed} {log : List Rendering}
    (h : p.performAll (deed :: deeds) = .ok (log, p')) : ∃ rendering? next later,
      p.Becomes deed rendering? next ∧ next.performAll deeds = .ok (later, p') ∧
        log = rendering?.toList ++ later := by
  obtain ⟨⟨rendering?, next⟩, hperform, hrest⟩ := bind_eq_ok_iff.mp h
  obtain ⟨⟨later, after⟩, hall, hlog⟩ := bind_eq_ok_iff.mp hrest
  cases hlog
  exact ⟨rendering?, next, later, becomes_of_perform_eq_ok hperform, hall, rfl⟩

end Page

/-! ### What can be done to one block -/

/-- What a deed can make of the block of a number. -/
inductive Block.Passes (deed : Deed) (n : Nat) (b : Block) : Block → Prop where
  | same : Passes deed n b b
  | rescaled (width : Float) : Passes deed n b (b.rescale width)
  | rendered (surface : Surface) (hgo : b.cancelled = false) :
      Passes deed n b { b with surface := some surface }
  | cancelled (h : deed = .cancel n) : Passes deed n b { b with cancelled := true }
  | dropped (h : deed = .drop n) : Passes deed n b { b with cancelled := true, dropped := true }

namespace Block.Passes

variable {deed : Deed} {n : Nat} {b b' : Block}

/-- **A block that has been cancelled** can only be dropped. -/
theorem of_cancelled (h : b.Passes deed n b') (hcancelled : b.cancelled = true) :
    ∃ gone, b' = { b with dropped := gone } := by
  cases h with
  | same => exact ⟨b.dropped, rfl⟩
  | rescaled width => exact ⟨b.dropped, rescale_of_cancelled width hcancelled⟩
  | rendered surface hgo =>
    rw [hcancelled] at hgo
    cases hgo
  | cancelled => exact ⟨b.dropped, by rw [← hcancelled]⟩
  | dropped => exact ⟨true, by rw [← hcancelled]⟩

/-- What cancels a block. -/
theorem cancelled_cause (h : b.Passes deed n b') (hcancelled : b'.cancelled = true) :
    b.cancelled = true ∨ deed = .cancel n ∨ deed = .drop n := by
  cases h with
  | same => exact .inl hcancelled
  | rescaled width =>
    have hsame := b.map_rescale width (g := Block.cancelled) fun _ _ => rfl
    exact .inl (hsame ▸ hcancelled)
  | rendered => exact .inl hcancelled
  | cancelled hdeed => exact .inr (.inl hdeed)
  | dropped hdeed => exact .inr (.inr hdeed)

/-- What drops a block. -/
theorem dropped_cause (h : b.Passes deed n b') (hdropped : b'.dropped = true) :
    b.dropped = true ∨ deed = .drop n := by
  cases h with
  | same => exact .inl hdropped
  | rescaled width =>
    have hsame := b.map_rescale width (g := Block.dropped) fun _ _ => rfl
    exact .inl (hsame ▸ hdropped)
  | rendered => exact .inl hdropped
  | cancelled => exact .inl hdropped
  | dropped hdeed => exact .inr hdeed

end Block.Passes

namespace Page.Becomes

variable {p p' : Page} {deed : Deed} {rendering? : Option Rendering} {n : Nat} {b : Block}

theorem passes (h : p.Becomes deed rendering? p') (hb : p.blocks[n]? = some b) :
    ∃ b', p'.blocks[n]? = some b' ∧ b.Passes deed n b' := by
  cases h with
  | resize width =>
    rw [getElem?_resize, hb, Option.map_some]
    split
    next => exact ⟨_, rfl, .rescaled width⟩
    next => exact ⟨_, rfl, .same⟩
  | mount =>
    refine ⟨b, ?_, .same⟩
    rw [withBlock, List.getElem?_append_left (List.getElem?_eq_some_iff.mp hb).1]
    exact hb
  | @rerender r number source surface rest b' hb' hgo =>
    rw [withSurface, getElem?_modifyBlock, hb, Option.map_some]
    split
    next heq =>
      subst heq
      obtain rfl := Option.some.inj (hb.symm.trans hb')
      exact ⟨_, rfl, .rendered surface hgo⟩
    next => exact ⟨_, rfl, .same⟩
  | idle => exact ⟨b, hb, .same⟩
  | cancel number =>
    rw [Page.cancel, getElem?_modifyBlock, hb, Option.map_some]
    split
    next heq => exact ⟨_, rfl, .cancelled (heq ▸ rfl)⟩
    next => exact ⟨_, rfl, .same⟩
  | drop number =>
    rw [getElem?_drop, hb, Option.map_some]
    split
    next heq => exact ⟨_, rfl, .dropped (heq ▸ rfl)⟩
    next => exact ⟨_, rfl, .same⟩
  | listen => exact ⟨b, hb, .same⟩
  | unlisten id =>
    refine ⟨b, ?_, .same⟩
    rw [Page.unlisten]
    split <;> exact hb
  | restock => exact ⟨b, hb, .same⟩

/-- Blocks keep what they were mounted with, and a mount adds a block to them. -/
theorem frames_eq (h : p.Becomes deed rendering? p') :
    p'.blocks.map Block.frame = p.blocks.map Block.frame ++ deed.frame?.toList := by
  cases h with
  | resize width =>
    rw [map_resize (g := Block.frame) fun _ _ => rfl]
    exact (List.append_nil _).symm
  | mount => exact List.map_append
  | @rerender r number source surface rest =>
    have hframe (b : Block) : { b with surface := some surface }.frame = b.frame := rfl
    rw [withSurface, map_modifyBlock hframe]
    exact (List.append_nil _).symm
  | cancel number =>
    have hframe (b : Block) : { b with cancelled := true }.frame = b.frame := rfl
    rw [Page.cancel, map_modifyBlock hframe]
    exact (List.append_nil _).symm
  | drop number =>
    rw [map_drop (g := Block.frame) fun _ => rfl]
    exact (List.append_nil _).symm
  | unlisten id =>
    rw [Page.unlisten]
    split <;> exact (List.append_nil _).symm
  | idle | listen | restock => exact (List.append_nil _).symm

theorem width_eq (h : p.Becomes deed rendering? p') :
    p'.viewport.width = deed.width?.getD p.viewport.width := by
  cases h with
  | resize width =>
    rw [viewport_resize]
    rfl
  | drop number => exact p.width_drop number
  | unlisten id =>
    rw [Page.unlisten]
    split <;> rfl
  | mount | rerender | idle | cancel | listen | restock => rfl

/-- Only those who listen without a block register such a listener. -/
theorem listen_cause (h : p.Becomes deed rendering? p') {id : Nat}
    (hid : (id, none) ∈ p'.viewport.listeners) :
    (id, none) ∈ p.viewport.listeners ∨ deed = .listen := by
  cases h with
  | resize width =>
    rw [viewport_resize] at hid
    exact .inl hid
  | mount =>
    rcases List.mem_append.mp hid with hold | hnew
    · exact .inl hold
    · simp at hnew
  | drop number =>
    rw [Page.drop] at hid
    split at hid
    next => exact .inl hid
    next => exact .inl (List.mem_of_mem_filter hid)
  | listen => exact .inr rfl
  | unlisten id' =>
    rw [Page.unlisten] at hid
    split at hid
    next => exact .inl (List.mem_of_mem_filter hid)
    next => exact .inl hid
  | rerender | idle | cancel | restock => exact .inl hid

/-- A block that was not there before has been neither cancelled nor dropped. -/
theorem of_new (h : p.Becomes deed rendering? p') (hnone : p.blocks[n]? = none)
    (hb : p'.blocks[n]? = some b) : b.cancelled = false ∧ b.dropped = false := by
  have hframes := h.frames_eq
  cases hframe : deed.frame? with
  | none =>
    -- there are as many blocks as before
    rw [hframe, Option.toList_none, List.append_nil] at hframes
    have hlength := congrArg List.length hframes
    rw [List.length_map, List.length_map] at hlength
    rw [List.getElem?_eq_none_iff, ← hlength, ← List.getElem?_eq_none_iff, hb] at hnone
    cases hnone
  | some frame =>
    cases h with
    | mount =>
      rw [withBlock, List.getElem?_append_right (List.getElem?_eq_none_iff.mp hnone),
        List.getElem?_singleton] at hb
      obtain ⟨-, heq⟩ := Option.ite_none_right_eq_some.mp hb
      obtain rfl := Option.some.inj heq
      exact ⟨rfl, rfl⟩
    | _ => cases hframe

end Page.Becomes

end SceneCanvas.Host
