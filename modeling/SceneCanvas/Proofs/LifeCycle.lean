import SceneCanvas.Proofs.Deed
import SceneCanvas.Proofs.Listeners

/-!
# The life of blocks

What a page looks like does not depend on how it came about, apart from a few things that can be
read off what was done (`Host.Page.Recalls`): the width that was set last, what each block was
mounted with, and the deeds that cancel and drop blocks.

The rest is an invariant (`Host.Page.Sound`). The viewport has one listener of each block that has
not been dropped; a block that has not been cancelled listens, so that every change of the width
finds it, and it is shown at the size that suits the width; and a block shows the complete render of
the source that was last rendered for it.

`Host.Block.Lives` lists what follows from both for a block, and `Host.life_of_blocks` says that all
blocks live, whatever is done.
-/

namespace SceneCanvas.Host

open Render (Resources Runner)

/-! ### What holds of every page -/

/-- What holds of a block in a host of the given width, the last rendering for it being given. -/
structure Block.Sound (b : Block) (hostWidth : Float) (last? : Option Rendering) : Prop where
  cancelled_of_dropped : b.dropped = true → b.cancelled = true
  display_eq : b.cancelled = false → b.display = b.displayIn hostWidth
  surface_eq : ∃ ρ surface, last? = some ρ ∧ ρ.Yields surface ∧ b.surface = some surface

namespace Block.Sound

variable {b : Block} {hostWidth : Float} {last? : Option Rendering}

/-- A block that has just been mounted. -/
theorem mounted (r : Runner) (tag : Tag) (hostWidth : Float) (listener : Nat) {ρ : Rendering}
    {surface : Surface} (hρ : ρ.Yields surface) :
    (Block.mounted r tag hostWidth listener surface).Sound hostWidth (some ρ) :=
  ⟨nofun, fun _ => rfl, ρ, surface, rfl, hρ, rfl⟩

/-- A block is cancelled, and perhaps dropped. -/
theorem cancel (h : b.Sound hostWidth last?) (gone : Bool) :
    { b with cancelled := true, dropped := gone }.Sound hostWidth last? :=
  ⟨fun _ => rfl, nofun, h.surface_eq⟩

end Block.Sound

namespace Page

/-- What holds of a page on which this much was rendered. -/
structure Sound (p : Page) (log : List Rendering) : Prop where
  registers : p.viewport.Registers (p.blocks.map Block.registration)
  block : ∀ n (b : Block), p.blocks[n]? = some b →
    b.Sound p.viewport.width (Rendering.lastFor log n)

theorem sound_start (width : Float) (resources : Resources) : (start width resources).Sound [] where
  registers := ⟨List.nodup_nil, nofun, nofun, nofun, rfl⟩
  block := nofun

namespace Sound

variable {p : Page} {log : List Rendering} {n : Nat} {b : Block}

/-- The listener of a block is registered for it until the block is dropped. -/
theorem mem_listeners_iff (h : p.Sound log) (hb : p.blocks[n]? = some b) (owner : Option Nat) :
    (b.listener, owner) ∈ p.viewport.listeners ↔ owner = some n ∧ b.dropped = false := by
  refine h.registers.mem_iff n b.listener b.dropped ?_ owner
  rw [List.getElem?_map, hb]
  rfl

theorem resize (h : p.Sound log) (width : Float) : (p.resize width).Sound log where
  registers := by
    rw [viewport_resize, map_resize (g := Block.registration) fun _ _ => rfl]
    exact h.registers.resize width
  block n b' hb' := by
    rw [getElem?_resize] at hb'
    obtain ⟨b, hb, rfl⟩ := Option.map_eq_some_iff.mp hb'
    obtain ⟨hdropped, -, hsurface⟩ := h.block n b hb
    rw [viewport_resize]
    cases hcancelled : b.cancelled with
    | true =>
      rw [Block.rescale_of_cancelled width hcancelled, ite_self]
      exact ⟨hdropped, fun hgo => absurd (hcancelled.symm.trans hgo) Bool.noConfusion, hsurface⟩
    | false =>
      -- the block has not been dropped, so it listens
      have hlive : b.dropped = false := Bool.eq_false_iff.mpr fun hgone =>
        absurd (hcancelled.symm.trans (hdropped hgone)) Bool.noConfusion
      have hlistens := (h.mem_listeners_iff hb (some n)).mpr ⟨rfl, hlive⟩
      have hrescaled : b.rescale width = { b with display := b.displayIn width } := by
        rw [Block.rescale, hcancelled]
        rfl
      rw [if_pos (List.mem_map_of_mem hlistens), hrescaled]
      exact ⟨hdropped, fun _ => rfl, hsurface⟩

/-- A change to one block that leaves its listener alone. -/
theorem modifyBlock (h : p.Sound log) {number : Nat} {f : Block → Block} {log' : List Rendering}
    (hf : ∀ b, (f b).registration = b.registration)
    (hlog : ∀ n, number ≠ n → Rendering.lastFor log' n = Rendering.lastFor log n)
    (hblock : ∀ b, p.blocks[number]? = some b →
      (f b).Sound p.viewport.width (Rendering.lastFor log' number)) :
    (p.modifyBlock number f).Sound log' where
  registers := by
    rw [map_modifyBlock hf]
    exact h.registers
  block n b' hb' := by
    rw [getElem?_modifyBlock] at hb'
    obtain ⟨b, hb, rfl⟩ := Option.map_eq_some_iff.mp hb'
    split
    next heq =>
      subst heq
      exact hblock b hb
    next hne =>
      rw [hlog n hne]
      exact h.block n b hb

theorem cancel (h : p.Sound log) (number : Nat) : (p.cancel number).Sound log := by
  refine h.modifyBlock (fun _ => rfl) (fun _ _ => rfl) fun b hb => ?_
  exact (h.block number b hb).cancel b.dropped

theorem restock (h : p.Sound log) (resources : Resources) : { p with resources }.Sound log :=
  ⟨h.registers, h.block⟩

theorem listen (h : p.Sound log) : p.listen.2.Sound log :=
  ⟨h.registers.listen, h.block⟩

theorem unlisten (h : p.Sound log) (id : Nat) : (p.unlisten id).Sound log := by
  rw [Page.unlisten]
  split
  next hid => exact ⟨h.registers.unlisten hid, h.block⟩
  next => exact h

theorem withSurface (h : p.Sound log) {ρ : Rendering} {surface : Surface} (hρ : ρ.Yields surface)
    (rest : Resources) : (p.withSurface ρ.block surface rest).Sound (log ++ [ρ]) := by
  refine (h.restock rest).modifyBlock (fun _ => rfl) (fun n hn => ?_) fun b hb => ?_
  · rw [Rendering.lastFor_concat, if_neg hn]
  · obtain ⟨hdropped, hdisplay, -⟩ := h.block ρ.block b hb
    refine ⟨hdropped, hdisplay, ρ, surface, ?_, hρ, rfl⟩
    rw [Rendering.lastFor_concat, if_pos rfl]

theorem withBlock (h : p.Sound log) {ρ : Rendering} (hnumber : ρ.block = p.blocks.length)
    (tag : Tag) {surface : Surface} (hρ : ρ.Yields surface) (rest : Resources) :
    (p.withBlock ρ.runner tag surface rest).Sound (log ++ [ρ]) where
  registers := by
    have hmount := h.registers.mount
    rw [List.length_map] at hmount
    rw [Page.withBlock, List.map_append]
    exact hmount
  block n b hb := by
    rw [Page.withBlock] at hb
    rcases Nat.lt_or_ge n p.blocks.length with hold | hnew
    · have hne : ρ.block ≠ n := by omega
      rw [List.getElem?_append_left hold] at hb
      rw [Rendering.lastFor_concat, if_neg hne]
      exact h.block n b hb
    · rw [List.getElem?_append_right hnew, List.getElem?_singleton] at hb
      obtain ⟨hn, heq⟩ := Option.ite_none_right_eq_some.mp hb
      obtain rfl := Option.some.inj heq
      have hblock : ρ.block = n := by omega
      rw [Rendering.lastFor_concat, if_pos hblock]
      exact .mounted ρ.runner tag p.viewport.width p.viewport.nextId hρ

/-- The listeners of blocks after one of them has been dropped. -/
private theorem map_registration_drop (hb : p.blocks[n]? = some b) :
    (p.drop n).blocks.map Block.registration
      = (p.blocks.map Block.registration).set n (b.listener, true) := by
  have hlt : n < (p.blocks.map Block.registration).length := by
    rw [List.length_map]
    exact (List.getElem?_eq_some_iff.mp hb).1
  refine List.ext_getElem? fun m => ?_
  rw [List.getElem?_map, getElem?_drop, List.getElem?_set, List.getElem?_map]
  by_cases heq : n = m
  · subst heq
    rw [if_pos rfl, if_pos hlt, hb, Option.map_some, if_pos rfl]
    rfl
  · simp only [if_neg heq, Option.map_id_fun', id]

theorem drop (h : p.Sound log) (number : Nat) : (p.drop number).Sound log where
  registers := by
    cases hb : p.blocks[number]? with
    | none =>
      rw [Page.drop, hb]
      exact h.registers
    | some b =>
      have hregistration :
          (p.blocks.map Block.registration)[number]? = some (b.listener, b.dropped) := by
        rw [List.getElem?_map, hb]
        rfl
      rw [map_registration_drop hb, viewport_drop hb]
      exact h.registers.drop hregistration
  block n b' hb' := by
    rw [getElem?_drop] at hb'
    obtain ⟨b, hb, rfl⟩ := Option.map_eq_some_iff.mp hb'
    have hblock := h.block n b hb
    rw [width_drop]
    split
    next => exact hblock.cancel true
    next => exact hblock

/-- **Every deed** keeps a page sound. -/
theorem becomes (h : p.Sound log) {deed : Deed} {rendering? : Option Rendering} {p' : Page}
    (hbecomes : p.Becomes deed rendering? p') : p'.Sound (log ++ rendering?.toList) := by
  cases hbecomes with
  | resize width => simpa using h.resize width
  | @mount r source surface rest tag hrender =>
    have hyields : Rendering.Yields ⟨p.blocks.length, r, p.resources, source⟩ surface :=
      ⟨rest, hrender⟩
    exact h.withBlock rfl tag hyields rest
  | @rerender r number source surface rest b hb hgo hrender =>
    have hyields : Rendering.Yields ⟨number, r, p.resources, source⟩ surface := ⟨rest, hrender⟩
    exact h.withSurface hyields rest
  | idle => simpa using h
  | cancel number => simpa using h.cancel number
  | drop number => simpa using h.drop number
  | listen => simpa using h.listen
  | unlisten id => simpa using h.unlisten id
  | restock resources => simpa using h.restock resources

theorem performAll (h : p.Sound log) {deeds : List Deed} {later : List Rendering} {p' : Page}
    (hall : p.performAll deeds = .ok (later, p')) : p'.Sound (log ++ later) := by
  induction deeds generalizing p log later with
  | nil =>
    cases hall
    simpa using h
  | cons deed deeds ih =>
    obtain ⟨rendering?, next, rest, hbecomes, hrest, rfl⟩ :=
      becomes_of_performAll_cons_eq_ok hall
    rw [← List.append_assoc]
    exact ih (h.becomes hbecomes) hrest

/-- **Dropping a block** takes out its own listener and no other. -/
theorem listeners_drop (h : p.Sound log) (hb : p.blocks[n]? = some b) (hlive : b.dropped = false) :
    ∃ before after, p.viewport.listeners = before ++ (b.listener, some n) :: after ∧
      (p.drop n).viewport.listeners = before ++ after := by
  have hlistens := (h.mem_listeners_iff hb (some n)).mpr ⟨rfl, hlive⟩
  obtain ⟨before, after, hlisteners⟩ := List.append_of_mem hlistens
  refine ⟨before, after, hlisteners, ?_⟩
  rw [viewport_drop hb]
  exact Viewport.listeners_unsubscribe h.registers.ids_nodup hlisteners

/-- **The listeners** are those of the blocks that have not been dropped, and others. -/
theorem listenerCount_eq (h : p.Sound log) : p.viewport.listenerCount
    = p.blocks.countP (fun b => !b.dropped)
      + p.viewport.listeners.countP (fun l => l.2.isNone) := by
  have hcount := h.registers.count_eq
  have hothers : (fun l : Nat × Option Nat => decide ¬l.2.isSome = true)
      = fun l => l.2.isNone := by
    funext l
    cases l.2 <;> rfl
  rw [List.countP_map] at hcount
  rw [Viewport.listenerCount, List.length_eq_countP_add_countP (fun l => l.2.isSome), hcount,
    hothers]
  rfl

end Sound

/-! ### What can be read off what was done -/

/-- The page remembers what was done to it, at first in a host of the given width. -/
structure Recalls (p : Page) (width : Float) (done : List Deed) : Prop where
  width_eq : p.viewport.width = (done.filterMap Deed.width?).getLast?.getD width
  frames_eq : p.blocks.map Block.frame = done.filterMap Deed.frame?
  cancelled_cause : ∀ n b, p.blocks[n]? = some b → b.cancelled = true →
    .cancel n ∈ done ∨ .drop n ∈ done
  dropped_cause : ∀ n b, p.blocks[n]? = some b → b.dropped = true → .drop n ∈ done
  listen_cause : ∀ id, (id, none) ∈ p.viewport.listeners → .listen ∈ done

theorem recalls_start (width : Float) (resources : Resources) :
    (start width resources).Recalls width [] :=
  ⟨rfl, rfl, nofun, nofun, nofun⟩

namespace Recalls

variable {p p' : Page} {width : Float} {done : List Deed}

theorem becomes (h : p.Recalls width done) {deed : Deed} {rendering? : Option Rendering}
    (hbecomes : p.Becomes deed rendering? p') : p'.Recalls width (done ++ [deed]) := by
  -- a block that was there before has passed through the deed, and any other one is new
  have hblock {n : Nat} {b' : Block} (hb' : p'.blocks[n]? = some b') :
      (∃ b, p.blocks[n]? = some b ∧ b.Passes deed n b') ∨
        b'.cancelled = false ∧ b'.dropped = false := by
    cases hb : p.blocks[n]? with
    | none => exact .inr (hbecomes.of_new hb hb')
    | some b =>
      obtain ⟨b'', hb'', hpasses⟩ := hbecomes.passes hb
      obtain rfl := Option.some.inj (hb'.symm.trans hb'')
      exact .inl ⟨b, rfl, hpasses⟩
  refine ⟨?width, ?frames, fun n b' hb' hcancelled => ?cancelled,
    fun n b' hb' hdropped => ?dropped, fun id hid => ?listen⟩
  case width =>
    rw [hbecomes.width_eq, h.width_eq, List.filterMap_append]
    cases hwidth : deed.width? <;> simp [hwidth]
  case frames =>
    rw [hbecomes.frames_eq, h.frames_eq, List.filterMap_append]
    cases hframe : deed.frame? <;> simp [hframe]
  case cancelled =>
    rcases hblock hb' with ⟨b, hb, hpasses⟩ | ⟨hgo, -⟩
    · rcases hpasses.cancelled_cause hcancelled with hold | rfl | rfl
      · exact (h.cancelled_cause n b hb hold).imp (List.mem_append_left _) (List.mem_append_left _)
      · exact .inl (List.mem_append_right _ List.mem_cons_self)
      · exact .inr (List.mem_append_right _ List.mem_cons_self)
    · rw [hgo] at hcancelled
      cases hcancelled
  case dropped =>
    rcases hblock hb' with ⟨b, hb, hpasses⟩ | ⟨-, hlive⟩
    · rcases hpasses.dropped_cause hdropped with hold | rfl
      · exact List.mem_append_left _ (h.dropped_cause n b hb hold)
      · exact List.mem_append_right _ List.mem_cons_self
    · rw [hlive] at hdropped
      cases hdropped
  case listen =>
    rcases hbecomes.listen_cause hid with hold | rfl
    · exact List.mem_append_left _ (h.listen_cause id hold)
    · exact List.mem_append_right _ List.mem_cons_self

theorem performAll (h : p.Recalls width done) {deeds : List Deed} {log : List Rendering}
    (hall : p.performAll deeds = .ok (log, p')) : p'.Recalls width (done ++ deeds) := by
  induction deeds generalizing p done log with
  | nil =>
    cases hall
    rwa [List.append_nil]
  | cons deed deeds ih =>
    obtain ⟨_, next, _, hbecomes, hrest, -⟩ := becomes_of_performAll_cons_eq_ok hall
    rw [← List.singleton_append, ← List.append_assoc]
    exact ih (h.becomes hbecomes) hrest

end Recalls

/-- **A cancelled block stays as it is**, whatever is done; only it may be dropped. -/
theorem getElem?_performAll_of_cancelled {p p' : Page} {deeds : List Deed} {log : List Rendering}
    {n : Nat} {b : Block} (hall : p.performAll deeds = .ok (log, p'))
    (hb : p.blocks[n]? = some b) (hcancelled : b.cancelled = true) :
    ∃ gone, p'.blocks[n]? = some { b with dropped := gone } := by
  induction deeds generalizing p b log with
  | nil =>
    cases hall
    exact ⟨b.dropped, hb⟩
  | cons deed deeds ih =>
    obtain ⟨_, next, _, hbecomes, hrest, -⟩ := becomes_of_performAll_cons_eq_ok hall
    obtain ⟨_, hnext, hpasses⟩ := hbecomes.passes hb
    obtain ⟨gone, rfl⟩ := hpasses.of_cancelled hcancelled
    obtain ⟨gone', hlast⟩ := ih (b := { b with dropped := gone }) hrest hnext hcancelled
    exact ⟨gone', hlast⟩

end Page

/-! ### Every sequence of deeds -/

/-- What holds of the block of a number on a page, after these deeds and renderings. -/
structure Block.Lives (b : Block) (n : Nat) (deeds : List Deed) (log : List Rendering) (p : Page) :
    Prop where
  /-- It shows the complete render of the source that was last rendered for it. -/
  shows : ∃ ρ surface, Rendering.lastFor log n = some ρ ∧ ρ.Yields surface ∧
    b.surface = some surface
  /-- Its size suits the present width unless it has been cancelled, -/
  fits : b.cancelled = false →
    b.display = .fit (b.tag.containerWidth p.viewport.width) b.sceneW b.sceneH
  /-- and then it can also be rendered again. -/
  renders : b.cancelled = false → ∀ r source, ∃ p', p.rerender r n source = .ok (true, p')
  /-- Once cancelled it never changes, whatever more is done, and is not rendered again. -/
  rests : b.cancelled = true → ∀ more, ∃ later p' gone, p.performAll more = .ok (later, p') ∧
    p'.blocks[n]? = some { b with dropped := gone } ∧
    ∀ r source, p'.rerender r n source = .ok (false, p')
  /-- Only cancelling or dropping it cancels it, -/
  cancelled_cause : b.cancelled = true → .cancel n ∈ deeds ∨ .drop n ∈ deeds
  dropped_cause : b.dropped = true → .drop n ∈ deeds
  cancel_eq : (p.cancel n).blocks[n]? = some { b with cancelled := true }
  /-- and dropping it does so, and leaves all other blocks alone. -/
  drop_eq : (p.drop n).blocks[n]? = some { b with cancelled := true, dropped := true }
  drop_others : ∀ m, n ≠ m → (p.drop n).blocks[m]? = p.blocks[m]?
  /-- Dropping it takes out its own listener and no other. -/
  listeners_drop : b.dropped = false → ∃ before after,
    p.viewport.listeners = before ++ (b.listener, some n) :: after ∧
    (p.drop n).viewport.listeners = before ++ after

/-- A block of a page that is sound and remembers what was done to it. -/
theorem Page.Sound.lives {p : Page} {log : List Rendering} {width : Float} {deeds : List Deed}
    {n : Nat} {b : Block} (h : p.Sound log) (hrecalls : p.Recalls width deeds)
    (hb : p.blocks[n]? = some b) : b.Lives n deeds log p where
  shows := (h.block n b hb).surface_eq
  fits := (h.block n b hb).display_eq
  renders hgo r source := by
    obtain ⟨surface, rest, -, hunless⟩ := exists_render_eq_ok r p.resources source
    exact ⟨_, rerender_of_live hunless hb hgo⟩
  rests hcancelled more := by
    obtain ⟨later, p', hmore⟩ := p.exists_performAll_eq_ok more
    obtain ⟨gone, hb'⟩ := getElem?_performAll_of_cancelled hmore hb hcancelled
    refine ⟨later, p', gone, hmore, hb', fun r source => ?_⟩
    refine rerender_of_cancelled (fun b' hb'' => ?_) r source
    obtain rfl := Option.some.inj (hb'.symm.trans hb'')
    exact hcancelled
  cancelled_cause := hrecalls.cancelled_cause n b hb
  dropped_cause := hrecalls.dropped_cause n b hb
  cancel_eq := by rw [Page.cancel, getElem?_modifyBlock, hb, Option.map_some, if_pos rfl]
  drop_eq := by rw [getElem?_drop, hb, Option.map_some, if_pos rfl]
  drop_others m hne := by
    rw [getElem?_drop]
    simp only [if_neg hne, Option.map_id_fun', id]
  listeners_drop := h.listeners_drop hb

/-- **The life of blocks.** Any deeds can be done one after the other, and this is what comes of
them. The width of the viewport is the one that was set last, there is one block for each that was
mounted, and all of them live. The viewport has one listener for each block that has not been
dropped, and besides those only such as others have registered. -/
theorem life_of_blocks (width : Float) (resources : Resources) (deeds : List Deed) :
    ∃ log p, (Page.start width resources).performAll deeds = .ok (log, p) ∧
      p.viewport.width = (deeds.filterMap Deed.width?).getLast?.getD width ∧
      p.blocks.map Block.frame = deeds.filterMap Deed.frame? ∧
      (∀ n (b : Block), p.blocks[n]? = some b → b.Lives n deeds log p) ∧
      p.viewport.listenerCount = p.blocks.countP (fun b => !b.dropped)
        + p.viewport.listeners.countP (fun l => l.2.isNone) ∧
      (.listen ∉ deeds → p.viewport.listenerCount = p.blocks.countP fun b => !b.dropped) := by
  obtain ⟨log, p, hall⟩ := (Page.start width resources).exists_performAll_eq_ok deeds
  have hsound : p.Sound log := (Page.sound_start width resources).performAll hall
  have hrecalls : p.Recalls width deeds := (Page.recalls_start width resources).performAll hall
  refine ⟨log, p, hall, hrecalls.width_eq, hrecalls.frames_eq,
    fun n b hb => hsound.lives hrecalls hb, hsound.listenerCount_eq, fun hlisten => ?_⟩
  have hnone : p.viewport.listeners.countP (fun l => l.2.isNone) = 0 := by
    refine List.countP_eq_zero.mpr fun l hl howner => hlisten (hrecalls.listen_cause l.1 ?_)
    rwa [← Option.isNone_iff_eq_none.mp howner]
  rw [hsound.listenerCount_eq, hnone, Nat.add_zero]

/-- Two blocks, of which the first one is cancelled between two changes of the width. -/
theorem life_of_blocks_two :
    let settings : Settings := { sceneW := 2, sceneH := 1, marker := false }
    let r : Runner := { settings, storage := Asset.Storage.ofTable [], valid := rfl }
    let tag : Tag := ⟨"scene", 49.5⟩
    let deeds : List Deed :=
      [.mount r tag "bob", .resize 300.0, .cancel 0, .mount r tag "eve", .resize 400.0,
        .rerender r 0 "eve"]
    ∃ log p first second, (Page.start 500.0 {}).performAll deeds = .ok (log, p) ∧
      p.viewport.listenerCount = 2 ∧ p.blocks[0]? = some first ∧ p.blocks[1]? = some second ∧
      (∀ more, ∃ later p' gone, p.performAll more = .ok (later, p') ∧
        p'.blocks[0]? = some { first with dropped := gone }) ∧
      second.display = .fit (tag.containerWidth 400.0) 2 1 := by
  intro settings r tag deeds
  have hflags : ((Page.start 500.0 {}).performAll deeds).toOption.map (fun result =>
      result.2.blocks.map fun b => (b.cancelled, b.dropped))
        = some [(true, false), (false, false)] := by
    decide +kernel
  obtain ⟨log, p, hall, hwidth, hframes, hblocks, -, halone⟩ := life_of_blocks 500.0 {} deeds
  have hlength : p.blocks.length = 2 := by
    rw [← List.length_map Block.frame, hframes]
    rfl
  obtain ⟨first, second, hboth⟩ := List.length_eq_two.mp hlength
  obtain ⟨⟨hstopped, hfirst⟩, hgo, hsecond⟩ :
      (first.cancelled = true ∧ first.dropped = false) ∧
        second.cancelled = false ∧ second.dropped = false := by
    simpa [hall, hboth, Except.toOption] using hflags
  have hlives₀ := hblocks 0 first (by rw [hboth]; rfl)
  have hlives₁ := hblocks 1 second (by rw [hboth]; rfl)
  have hpair : [first.frame, second.frame] = [(tag, 2, 1), (tag, 2, 1)] := by
    rw [hboth] at hframes
    exact hframes
  obtain ⟨-, htail⟩ := List.cons.inj hpair
  obtain ⟨htag, hsize⟩ := Prod.mk.inj (List.cons.inj htail).1
  obtain ⟨hsceneW, hsceneH⟩ := Prod.mk.inj hsize
  refine ⟨log, p, first, second, hall, ?count, by rw [hboth]; rfl, by rw [hboth]; rfl,
    fun more => ?never, ?display⟩
  case count =>
    have hlisten : .listen ∉ deeds := by
      simp [deeds]
    rw [halone hlisten, hboth]
    simp [hfirst, hsecond]
  case never =>
    obtain ⟨later, p', gone, hmore, hsame, -⟩ := hlives₀.rests hstopped more
    exact ⟨later, p', gone, hmore, hsame⟩
  case display =>
    rw [hlives₁.fits hgo, hwidth, htag, hsceneW, hsceneH]
    rfl

end SceneCanvas.Host
