import SceneCanvas.Render.Run
import SceneCanvas.Proofs.Cache
import SceneCanvas.Proofs.Control

/-!
# Renders do not see the cache

The cache is there to save work. What a run draws, and how it ends, is the same whatever earlier
lookups and renders have left in the cache, and whatever is fetched in advance and in which order
(`Render.cache_transparent`).

The proof compares two runs in step. Between steps the two canvases are `Canvas.Alike`: they show
the same, hold the same fonts, and have caches that agree with the storage, though perhaps about
different pictures. Every step keeps them so (`Canvas.Alike.perform`), since the only step that
looks into the cache is told what the storage says.
-/

namespace SceneCanvas.Render

open Asset (Cache Storage)
open Script (Caption Directive Plan)

/-- Answers to the question whether to stop that depend on nothing but how often it was asked. -/
def Poll.fixed (stop : Nat → Bool) : Poll := fun n _ => stop n

/-- What can be seen of a run: how it ended and the surface that it left. -/
def shown (outcome : Ending × Canvas) : Ending × Surface := (outcome.1, outcome.2.surface)

namespace Canvas

theorem drawImage_eq (r : Renderer) (c : Canvas) (image : Script.ImageRef Float) :
    c.drawImage r image =
      let next : Canvas :=
        { c with resources.assets := (c.resources.assets.fetch r.storage image.key).2 }
      match (c.resources.assets.fetch r.storage image.key).1 with
      | none => next.done
      | some picture => next.replaceSurface c.surface
          (c.surface.drawPicture r.raster picture
            (image.placement.transform c.surface.size picture.size)) := rfl

theorem paint_eq (r : Renderer) (c : Canvas) (caption : Caption) :
    c.paint r caption =
      let painting :=
        Font.paint r.raster r.shaper c.resources.fonts r.settings.defaultFont c.surface caption
      ({ c with resources.fonts := painting.2 } : Canvas).replaceSurface c.surface painting.1 := rfl

/-- Two canvases that differ at most in what their caches know of the storage. -/
structure Alike (storage : Storage) (c c' : Canvas) : Prop where
  surface_eq : c.surface = c'.surface
  fonts_eq : c.resources.fonts = c'.resources.fonts
  coherent : c.resources.assets.Coherent storage
  coherent' : c'.resources.assets.Coherent storage

namespace Alike

variable {storage : Storage} {c c' : Canvas}

theorem refl (h : c.resources.assets.Coherent storage) : Alike storage c c := ⟨rfl, rfl, h, h⟩

/-- The caches may change as long as they agree with the storage. -/
theorem withAssets (h : Alike storage c c') {assets assets' : Cache}
    (hassets : assets.Coherent storage) (hassets' : assets'.Coherent storage) :
    Alike storage { c with resources.assets := assets } { c' with resources.assets := assets' } :=
  ⟨h.surface_eq, h.fonts_eq, hassets, hassets'⟩

theorem withFonts (h : Alike storage c c') (fonts : Font.Book) :
    Alike storage { c with resources.fonts := fonts } { c' with resources.fonts := fonts } :=
  ⟨h.surface_eq, rfl, h.coherent, h.coherent'⟩

/-! ### Effects -/

theorem mapData (h : Alike storage c c') (f : Buffer → Buffer) :
    Alike storage (c.mapData f) (c'.mapData f) :=
  ⟨congrArg (Surface.mapData f) h.surface_eq, h.fonts_eq, h.coherent, h.coherent'⟩

theorem replaceData (h : Alike storage c c') (data : Except SceneError Buffer) :
    Alike storage (c.replaceData data).1 (c'.replaceData data).1 := by
  cases data with
  | ok data => exact h.mapData _
  | error e => exact h

theorem replaceSurface (h : Alike storage c c') (spoilt : Surface)
    (surface : Except SceneError Surface) :
    Alike storage (c.replaceSurface spoilt surface).1 (c'.replaceSurface spoilt surface).1 := by
  cases surface with
  | ok surface => exact ⟨rfl, h.fonts_eq, h.coherent, h.coherent'⟩
  | error e => exact ⟨rfl, h.fonts_eq, h.coherent, h.coherent'⟩

theorem blur (h : Alike storage c c') (pixels : UInt32) (tones : List (Tone Float32)) :
    Alike storage (c.blur pixels tones).1 (c'.blur pixels tones).1 := by
  rw [Canvas.blur, Canvas.blur, h.surface_eq]
  split
  next => exact h.mapData _
  next => exact h.replaceData _

theorem bloom (h : Alike storage c c') (pixels : UInt32) (alpha : Float32) :
    Alike storage (c.bloom pixels alpha).1 (c'.bloom pixels alpha).1 := by
  rw [Canvas.bloom, Canvas.bloom, h.surface_eq]
  exact h.replaceData _

theorem zoom (h : Alike storage c c') (raster : Rasterizer) (z : Script.Zoom Float) :
    Alike storage (c.zoom raster z).1 (c'.zoom raster z).1 := by
  rw [Canvas.zoom, Canvas.zoom, h.surface_eq]
  split
  next => exact h
  next =>
    split
    next => exact h
    next => exact h.replaceSurface _ _

/-- Both caches are told the same about the picture. -/
theorem drawImage {r : Renderer} (h : Alike r.storage c c') (image : Script.ImageRef Float) :
    Alike r.storage (c.drawImage r image).1 (c'.drawImage r image).1 := by
  obtain ⟨hfound, hassets⟩ := Cache.fetch_spec h.coherent image.key
  obtain ⟨hfound', hassets'⟩ := Cache.fetch_spec h.coherent' image.key
  -- the canvases after the lookup, before anything is drawn
  have hnext := h.withAssets hassets hassets'
  rw [h.surface_eq] at hnext
  rw [drawImage_eq, drawImage_eq, hfound, hfound', h.surface_eq]
  cases r.storage.fetch? image.key with
  | none => exact hnext
  | some picture => exact hnext.replaceSurface _ _

theorem apply {r : Renderer} (h : Alike r.storage c c') (directive : Directive) :
    Alike r.storage (c.apply r directive).1 (c'.apply r directive).1 := by
  cases directive with
  | title line | subtitle line => exact h
  | dark amount | light amount | grayscale amount | sepia amount | invert | hue degrees =>
    exact h.mapData _
  | blur pixels tones => exact h.blur pixels tones
  | bloom pixels alpha => exact h.bloom pixels alpha
  | zoom z => exact h.zoom r.raster z
  | image image => exact h.drawImage image

theorem paint {r : Renderer} (h : Alike r.storage c c') (caption : Caption) :
    Alike r.storage (c.paint r caption).1 (c'.paint r caption).1 := by
  rw [paint_eq, paint_eq, h.surface_eq, h.fonts_eq]
  exact (h.withFonts _).replaceSurface _ _

/-- **One step of two runs.** -/
theorem perform {r : Renderer} (h : Alike r.storage c c') (step : Step) :
    Alike r.storage (c.perform r step) (c'.perform r step) := by
  cases step with
  | effect directive => exact h.apply directive
  | caption caption => exact h.paint caption

/-- **Two runs of the same steps**, told to stop at the same time, end in the same way with the
same surface. -/
theorem performAll {r : Renderer} (h : Alike r.storage c c') (stop : Nat → Bool) (asked : Nat)
    (steps : List Step) :
    shown (c.performAll r (.fixed stop) asked steps)
      = shown (c'.performAll r (.fixed stop) asked steps) := by
  induction steps generalizing c c' asked with
  | nil => exact congrArg (Prod.mk _) h.surface_eq
  | cons step steps ih =>
    rw [Canvas.performAll, Canvas.performAll, Poll.fixed, Poll.fixed]
    cases stop asked with
    | true => exact congrArg (Prod.mk _) h.surface_eq
    | false => exact ih (h.perform step) (asked + 1)

end Alike

/-! ### Pictures fetched in advance -/

/-- Carry out a plan until told to stop, with the pictures of some identifiers fetched beforehand
in the order given. -/
def runVisiting (r : Renderer) (poll : Poll) (identifiers : List String) (c : Canvas)
    (plan : Plan) : Ending × Canvas :=
  performAll r poll 0
    { c with resources.assets := c.resources.assets.fetchAll r.storage identifiers }
    (stepsOf r.settings plan)

/-- A run is a run that has visited the pictures of its plan in the order of first use, or none
of them. -/
theorem run_eq_runVisiting (r : Renderer) (poll : Poll) (c : Canvas) (plan : Plan) :
    c.run r poll plan = c.runVisiting r poll
      (if r.settings.prefetch ∧ 2 ≤ plan.imageKeys.length then plan.imageKeys else []) plan := by
  rw [run, runVisiting, prefetch]
  cases hprefetch : r.settings.prefetch with
  | false => rfl
  | true =>
    by_cases hlength : plan.imageKeys.length < 2
    · simp [hlength, Nat.not_le.mpr hlength, Cache.fetchAll]
    · simp [hlength, Nat.not_lt.mp hlength]

theorem coherent_perform {r : Renderer} {c : Canvas}
    (h : c.resources.assets.Coherent r.storage) (step : Step) :
    (c.perform r step).resources.assets.Coherent r.storage :=
  ((Alike.refl h).perform step).coherent

/-- Steps keep the cache in agreement with the storage, whatever the answers to the question
whether to stop depend on. -/
theorem coherent_performAll {r : Renderer} {c : Canvas}
    (h : c.resources.assets.Coherent r.storage) (poll : Poll) (asked : Nat) (steps : List Step) :
    (c.performAll r poll asked steps).2.resources.assets.Coherent r.storage := by
  induction steps generalizing c asked with
  | nil => exact h
  | cons step steps ih =>
    rw [performAll]
    split
    next => exact h
    next => exact ih (coherent_perform h step) (asked + 1)

theorem coherent_runVisiting {r : Renderer} {c : Canvas}
    (h : c.resources.assets.Coherent r.storage) (poll : Poll) (identifiers : List String)
    (plan : Plan) :
    (c.runVisiting r poll identifiers plan).2.resources.assets.Coherent r.storage :=
  coherent_performAll (h.fetchAll identifiers) poll 0 _

theorem coherent_run {r : Renderer} {c : Canvas} (h : c.resources.assets.Coherent r.storage)
    (poll : Poll) (plan : Plan) :
    (c.run r poll plan).2.resources.assets.Coherent r.storage := by
  rw [run_eq_runVisiting]
  exact coherent_runVisiting h ..

/-- Steps look at the settings only for what captions need. -/
theorem performAll_withPrefetch (r : Renderer) (prefetch : Bool) (poll : Poll) (asked : Nat)
    (c : Canvas) (steps : List Step) :
    performAll { r with settings.prefetch := prefetch } poll asked c steps
      = performAll r poll asked c steps := by
  induction steps generalizing c asked with
  | nil => rfl
  | cons step steps ih =>
    rw [performAll, performAll, ih]
    rfl

theorem runVisiting_withPrefetch (r : Renderer) (prefetch : Bool) (poll : Poll)
    (identifiers : List String) (c : Canvas) (plan : Plan) :
    runVisiting { r with settings.prefetch := prefetch } poll identifiers c plan
      = runVisiting r poll identifiers c plan :=
  performAll_withPrefetch r prefetch poll 0 _ _

end Canvas

/-! ### Whole renders -/

namespace Runner

theorem resources_of_blank_eq_ok {r : Runner} {resources : Resources} {c : Canvas}
    (h : r.blank resources = .ok c) : c.resources = resources := by
  rw [blank, bind_eq_ok_iff] at h
  obtain ⟨surface, -, hc⟩ := h
  cases hc
  rfl

theorem resources_drawMarker (raster : Rasterizer) (c : Canvas) :
    (c.drawMarker raster).1.resources = c.resources := by
  rw [Canvas.drawMarker]
  generalize c.surface.drawDisc .. = drawn
  cases drawn <;> rfl

/-- Nothing is looked up before the first step. -/
theorem resources_of_start_eq_ok {r : Runner} {resources : Resources} {c : Canvas}
    (h : r.start resources = .ok c) : c.resources = resources := by
  rw [start, bind_eq_ok_iff] at h
  obtain ⟨blank, hblank, hc⟩ := h
  have hresources := resources_of_blank_eq_ok hblank
  split at hc
  next =>
    split at hc
    next marked hmarked =>
      cases hc
      rw [← hresources, ← resources_drawMarker r.raster blank, hmarked]
    next => cases hc
  next => cases hc; exact hresources

theorem coherent_runSource {r : Runner} {poll : Poll} {resources : Resources} {source : String}
    {ending : Ending} {c : Canvas} (h : resources.assets.Coherent r.storage)
    (hrun : r.runSource poll resources source = .ok (ending, c)) :
    c.resources.assets.Coherent r.storage := by
  rw [runSource, bind_eq_ok_iff] at hrun
  obtain ⟨first, hstart, hrest⟩ := hrun
  rw [← resources_of_start_eq_ok hstart] at h
  dsimp only at hrest
  split at hrest
  next => cases hrest; exact h
  next =>
    have hc : c = (first.run r.toRenderer poll (Plan.parse source)).2 := by
      rw [Except.ok.inj hrest]
    rw [hc]
    exact Canvas.coherent_run h poll _

theorem coherent_render {r : Runner} {resources resources' : Resources} {source : String}
    {surface : Surface} (h : resources.assets.Coherent r.storage)
    (hrender : r.render resources source = .ok (surface, resources')) :
    resources'.assets.Coherent r.storage := by
  rw [render, bind_eq_ok_iff] at hrender
  obtain ⟨⟨ending, c⟩, hrun, hresult⟩ := hrender
  cases hresult
  exact coherent_runSource h hrun

theorem coherent_renderUnless {r : Runner} {poll : Poll} {resources resources' : Resources}
    {source : String} {surface : Option Surface} (h : resources.assets.Coherent r.storage)
    (hrender : r.renderUnless poll resources source = .ok (surface, resources')) :
    resources'.assets.Coherent r.storage := by
  rw [renderUnless] at hrender
  split at hrender
  next => cases hrender; exact h
  next =>
    rw [bind_eq_ok_iff] at hrender
    obtain ⟨⟨ending, c⟩, hrun, hresult⟩ := hrender
    have hc := coherent_runSource h hrun
    cases ending <;> cases hresult <;> exact hc

end Runner

/-! ### Reachable caches -/

/-- The caches that lookups and renders against one storage can lead to. -/
inductive Reachable (storage : Storage) : Cache → Prop where
  | empty : Reachable storage {}
  | resolve {c : Cache} (h : Reachable storage c) (identifier : String) :
      Reachable storage (c.resolve storage identifier).2
  | load {c : Cache} (h : Reachable storage c) (path : String) :
      Reachable storage (c.load storage path).2
  | fetch {c : Cache} (h : Reachable storage c) (identifier : String) :
      Reachable storage (c.fetch storage identifier).2
  | fetchAll {c : Cache} (h : Reachable storage c) (identifiers : List String) :
      Reachable storage (c.fetchAll storage identifiers)
  | run {c : Cache} (h : Reachable storage c) {r : Renderer} (hr : r.storage = storage)
      (poll : Poll) (surface : Surface) (fonts : Font.Book) (plan : Plan) :
      Reachable storage (Canvas.run r poll ⟨surface, c, fonts⟩ plan).2.resources.assets
  | runVisiting {c : Cache} (h : Reachable storage c) {r : Renderer} (hr : r.storage = storage)
      (poll : Poll) (identifiers : List String) (surface : Surface) (fonts : Font.Book)
      (plan : Plan) :
      Reachable storage
        (Canvas.runVisiting r poll identifiers ⟨surface, c, fonts⟩ plan).2.resources.assets
  | render {c : Cache} (h : Reachable storage c) {r : Runner} (hr : r.storage = storage)
      {fonts : Font.Book} {source : String} {surface : Surface} {resources : Resources}
      (hrender : r.render ⟨c, fonts⟩ source = .ok (surface, resources)) :
      Reachable storage resources.assets
  | renderUnless {c : Cache} (h : Reachable storage c) {r : Runner} (hr : r.storage = storage)
      {poll : Poll} {fonts : Font.Book} {source : String} {surface : Option Surface}
      {resources : Resources}
      (hrender : r.renderUnless poll ⟨c, fonts⟩ source = .ok (surface, resources)) :
      Reachable storage resources.assets

/-- Every reachable cache agrees with the storage. -/
theorem Reachable.coherent {storage : Storage} {c : Cache} (h : Reachable storage c) :
    c.Coherent storage := by
  induction h with
  | empty => exact Cache.coherent_empty storage
  | resolve _ identifier ih => exact (Cache.resolve_spec ih identifier).2
  | load _ path ih => exact (Cache.load_spec ih path).2
  | fetch _ identifier ih => exact (Cache.fetch_spec ih identifier).2
  | fetchAll _ identifiers ih => exact ih.fetchAll identifiers
  | run _ hr poll surface fonts plan ih => subst hr; exact Canvas.coherent_run ih poll plan
  | runVisiting _ hr poll identifiers surface fonts plan ih =>
    subst hr
    exact Canvas.coherent_runVisiting ih poll identifiers plan
  | render _ hr hrender ih => subst hr; exact Runner.coherent_render ih hrender
  | renderUnless _ hr hrender ih => subst hr; exact Runner.coherent_renderUnless ih hrender

namespace Canvas

/-- Two runs of one plan on the same surface with the same fonts show the same, whatever their
caches know and whichever pictures they fetch beforehand. -/
theorem shown_runVisiting_eq {r : Renderer} {c c' : Canvas} (h : Alike r.storage c c')
    (stop : Nat → Bool) (identifiers identifiers' : List String) (plan : Plan) :
    shown (c.runVisiting r (.fixed stop) identifiers plan)
      = shown (c'.runVisiting r (.fixed stop) identifiers' plan) :=
  (h.withAssets (h.coherent.fetchAll identifiers) (h.coherent'.fetchAll identifiers')).performAll
    stop 0 _

end Canvas

/-- **The cache is transparent.** Lookups in any reachable cache give what an empty cache gives,
which is what the storage says: the first candidate file that exists, and the picture in it if it
can be read and decoded. And a run of a plan from some surface shows the same whichever reachable
cache it starts with, whether or not it is told to fetch its pictures beforehand, and whichever
identifiers it visits then and in which order, with any shaping engine and any rasterizer. -/
theorem cache_transparent (storage : Storage) :
    (∀ c, Reachable storage c → ∀ identifier path,
      ((c.resolve storage identifier).1 = (Cache.resolve storage identifier {}).1 ∧
        (c.resolve storage identifier).1 =
          ["gfx/" ++ identifier ++ ".webp", "gfx/" ++ identifier ++ ".png",
            "gfx/" ++ identifier ++ ".jpg", "gfx/" ++ identifier ++ ".jpeg"].find?
              storage.fileExists) ∧
      ((c.load storage path).1 = (Cache.load storage path {}).1 ∧
        (c.load storage path).1 = (storage.read path >>= Asset.File.decode).toOption) ∧
      ((c.fetch storage identifier).1 = (Cache.fetch storage identifier {}).1 ∧
        (c.fetch storage identifier).1 =
          (c.resolve storage identifier).1.bind fun found => (c.load storage found).1)) ∧
    (∀ (settings : Settings) (shaper : Font.Shaper) (raster : Rasterizer) (stop : Nat → Bool)
      (surface : Surface) (fonts : Font.Book) (plan : Plan) (c c' : Cache),
      Reachable storage c → Reachable storage c' →
      ∀ prefetch prefetch' : Bool,
        shown (Canvas.run ⟨{ settings with prefetch }, storage, shaper, raster⟩ (.fixed stop)
            ⟨surface, c, fonts⟩ plan)
          = shown (Canvas.run ⟨{ settings with prefetch := prefetch' }, storage, shaper, raster⟩
            (.fixed stop) ⟨surface, c', fonts⟩ plan) ∧
        ∀ identifiers : List String,
          shown (Canvas.runVisiting ⟨settings, storage, shaper, raster⟩ (.fixed stop) identifiers
              ⟨surface, c, fonts⟩ plan)
            = shown (Canvas.run ⟨{ settings with prefetch := prefetch' }, storage, shaper, raster⟩
              (.fixed stop) ⟨surface, c', fonts⟩ plan)) := by
  refine ⟨fun c hc identifier path => ?lookups, ?runs⟩
  case lookups =>
    have hempty := Cache.coherent_empty storage
    have hresolve := (Cache.resolve_spec hc.coherent identifier).1
    have hload (path : String) := (Cache.load_spec hc.coherent path).1
    have hfetch := (Cache.fetch_spec hc.coherent identifier).1
    refine ⟨⟨?_, hresolve⟩, ⟨?_, hload path⟩, ?_, ?_⟩
    · rw [hresolve, (Cache.resolve_spec hempty identifier).1]
    · rw [hload, (Cache.load_spec hempty path).1]
    · rw [hfetch, (Cache.fetch_spec hempty identifier).1]
    · simp only [hfetch, hresolve, hload]
      rfl
  case runs =>
    intro settings shaper raster stop surface fonts plan c c' hc hc' prefetch prefetch'
    have halike : Canvas.Alike storage ⟨surface, c, fonts⟩ ⟨surface, c', fonts⟩ :=
      ⟨rfl, rfl, hc.coherent, hc'.coherent⟩
    -- a run is one that visits some identifiers or none, so one comparison serves all
    have hvisits (visits visits' : List String) :=
      Canvas.shown_runVisiting_eq (r := ⟨settings, storage, shaper, raster⟩) halike stop visits
        visits' plan
    have hprefetch := Canvas.runVisiting_withPrefetch ⟨settings, storage, shaper, raster⟩
    dsimp only at hprefetch
    simp only [Canvas.run_eq_runVisiting, hprefetch]
    exact ⟨hvisits _ _, fun identifiers => hvisits _ _⟩

/-- A picture that has been looked up before, and one that is missing, with and without fetching
them beforehand. -/
theorem cache_transparent_picture :
    let storage := Storage.ofTable [("gfx/bob.png", .image 1 1 .rgba #[255, 0, 0, 128])]
    let known := (Cache.fetch storage "eve" (Cache.fetch storage "bob" {}).2).2
    ((known.resolve storage "bob").1 = (Cache.resolve storage "bob" {}).1 ∧
      (known.resolve storage "bob").1 =
        ["gfx/bob.webp", "gfx/bob.png", "gfx/bob.jpg", "gfx/bob.jpeg"].find? storage.fileExists) ∧
    shown (Canvas.run ⟨{ prefetch := true }, storage, .boxes, .blocks⟩ (.fixed (· == 1))
        ⟨⟨1, 1, #[0, 0, 0, 0]⟩, known, {}⟩ (Plan.parse "bob & eve"))
      = shown (Canvas.run ⟨{ prefetch := false }, storage, .boxes, .blocks⟩ (.fixed (· == 1))
        ⟨⟨1, 1, #[0, 0, 0, 0]⟩, {}, {}⟩ (Plan.parse "bob & eve")) := by
  intro storage known
  have hknown : Reachable storage known := (Reachable.empty.fetch "bob").fetch "eve"
  exact ⟨((cache_transparent storage).1 known hknown "bob" "gfx/bob.png").1,
    ((cache_transparent storage).2 {} _ _ _ _ _ _ known {} hknown .empty true false).1⟩

end SceneCanvas.Render
