import SceneCanvas.Proofs.Cancellation

/-!
# Directives that come to nothing

Rendering does its best: a picture that cannot be had and a zoom that shows no window are passed
over. Such a directive is `Directive.Futile`, and leaving it out of a plan is not to be noticed: not
on the surface, not in how the run ends, and not by the directives after it
(`Render.futile_directives_unnoticed`).

The runs of a plan and of the plan without some futile directives take different numbers of steps,
and fetch different pictures beforehand. They are compared as in `Canvas.Alike`, where a futile
directive is a step of one run alone (`Canvas.Alike.apply_futile`).
-/

namespace SceneCanvas

open Asset (Cache File Storage)

namespace Script

/-- The directive cannot have an effect: it asks for a picture that has no file, that cannot be read
or decoded, or that is too large to be painted, or for a magnification that is not a positive
number. -/
inductive Directive.Futile (storage : Storage) : Directive → Prop where
  | missing {image : ImageRef Float} (hpath : storage.locate? image.key = none) :
      Futile storage (.image image)
  | unreadable {image : ImageRef Float} {path : String} {e : SceneError}
      (hpath : storage.locate? image.key = some path) (hread : storage.read path = .error e) :
      Futile storage (.image image)
  | undecodable {image : ImageRef Float} {path : String} {file : File} {e : SceneError}
      (hpath : storage.locate? image.key = some path) (hread : storage.read path = .ok file)
      (hdecode : file.decode = .error e) : Futile storage (.image image)
  | oversized {image : ImageRef Float} {path : String} {file : File} {picture : Picture}
      (hpath : storage.locate? image.key = some path) (hread : storage.read path = .ok file)
      (hdecode : file.decode = .ok picture)
      (hsize : 65535 < picture.width ∨ 65535 < picture.height) : Futile storage (.image image)
  | unmagnified {z : Zoom Float} (hfactor : ¬ (z.zoom.isFinite = true ∧ 0.0 < z.zoom)) :
      Futile storage (.zoom z)

namespace Directive

/-- `Futile`, as a test. -/
def isFutile (storage : Storage) : Directive → Bool
  | image picture =>
    match storage.fetch? picture.key with
    | none => true
    | some found => 65535 < found.width || 65535 < found.height
  | zoom z => !(z.zoom.isFinite && 0.0 < z.zoom)
  | _ => false

/-- The picture that is had for a key with a file. -/
private theorem fetch?_of_read {storage : Storage} {key path : String} {file : File}
    (hpath : storage.locate? key = some path) (hread : storage.read path = .ok file) :
    storage.fetch? key = file.decode.toOption := by
  rw [Storage.fetch?, hpath, Option.bind_some, Storage.picture?, hread]
  rfl

/-- A placement is futile just if no picture is to be had, or one that is too large. -/
theorem futile_image_iff {storage : Storage} {image : ImageRef Float} :
    Futile storage (.image image) ↔ ∀ picture, storage.fetch? image.key = some picture →
      65535 < picture.width ∨ 65535 < picture.height := by
  constructor
  · intro h picture hfetch
    cases h with
    | missing hpath => rw [Storage.fetch?, hpath] at hfetch; cases hfetch
    | unreadable hpath hread =>
      rw [Storage.fetch?, hpath, Option.bind_some, Storage.picture?, hread] at hfetch
      cases hfetch
    | undecodable hpath hread hdecode =>
      rw [fetch?_of_read hpath hread, hdecode] at hfetch
      cases hfetch
    | oversized hpath hread hdecode hsize =>
      rw [fetch?_of_read hpath hread, hdecode] at hfetch
      cases hfetch
      exact hsize
  · intro h
    cases hpath : storage.locate? image.key with
    | none => exact .missing hpath
    | some path =>
      cases hread : storage.read path with
      | error e => exact .unreadable hpath hread
      | ok file =>
        cases hdecode : file.decode with
        | error e => exact .undecodable hpath hread hdecode
        | ok picture =>
          have hfetch : storage.fetch? image.key = some picture := by
            rw [fetch?_of_read hpath hread, hdecode]
            rfl
          exact .oversized hpath hread hdecode (h picture hfetch)

theorem futile_zoom_iff {storage : Storage} {z : Zoom Float} :
    Futile storage (.zoom z) ↔ ¬ (z.zoom.isFinite = true ∧ 0.0 < z.zoom) :=
  ⟨fun h => by cases h with | unmagnified hfactor => exact hfactor, .unmagnified⟩

theorem isFutile_iff {storage : Storage} {directive : Directive} :
    directive.isFutile storage = true ↔ Futile storage directive := by
  cases directive with
  | image picture =>
    rw [futile_image_iff, isFutile]
    cases storage.fetch? picture.key with
    | none => simp
    | some found => simp
  | zoom z => rw [futile_zoom_iff, isFutile]; simp [Classical.or_iff_not_imp_left]
  | title | subtitle | dark | light | blur | bloom | grayscale | sepia | invert | hue =>
    exact ⟨fun h => (Bool.false_ne_true h).elim, fun h => nomatch h⟩

instance (storage : Storage) : DecidablePred (Futile storage) := fun _ =>
  decidable_of_iff _ isFutile_iff

end Directive

/-- A list of directives after some of the futile ones have been left out. -/
inductive Directive.Thinned (storage : Storage) : List Directive → List Directive → Prop where
  | nil : Thinned storage [] []
  | keep (directive : Directive) {directives thinned : List Directive}
      (h : Thinned storage directives thinned) :
      Thinned storage (directive :: directives) (directive :: thinned)
  | leaveOut {directive : Directive} {directives thinned : List Directive}
      (hfutile : Futile storage directive) (h : Thinned storage directives thinned) :
      Thinned storage (directive :: directives) thinned

/-- If all directives are futile, there may be none. -/
theorem Directive.thinned_nil {storage : Storage} {directives : List Directive}
    (h : ∀ d ∈ directives, d.Futile storage) : Thinned storage directives [] := by
  induction directives with
  | nil => exact .nil
  | cons directive directives ih =>
    exact .leaveOut (h _ List.mem_cons_self) (ih fun d hd => h d (List.mem_cons_of_mem _ hd))

/-- All futile directives may be left out at once. -/
theorem Directive.thinned_filter (storage : Storage) (directives : List Directive) :
    Thinned storage directives (directives.filter fun d => ¬ d.Futile storage) := by
  induction directives with
  | nil => exact .nil
  | cons directive directives ih =>
    by_cases hfutile : directive.Futile storage
    · rw [List.filter_cons_of_neg (by simpa using hfutile)]
      exact .leaveOut hfutile ih
    · rw [List.filter_cons_of_pos (by simpa using hfutile)]
      exact .keep directive ih

namespace Plan

/-- The plan without its futile directives. -/
def withoutFutile (storage : Storage) (plan : Plan) : Plan :=
  { plan with directives := plan.directives.filter fun d => ¬ d.Futile storage }

/-- The line of a source is skipped, or asks for nothing, or for something futile. -/
def IdleLine (storage : Storage) (line : List Char) : Prop :=
  Text.allBlank line = true ∨ Text.contains line ['%', '%'] = true ∨ directiveOf? line = none ∨
    ∃ directive, directiveOf? line = some directive ∧ directive.Futile storage

/-- If all lines of a source are idle, its plan has futile directives and no captions. -/
theorem ofChars_of_idleLines {storage : Storage} {source : List Char}
    (h : ∀ line ∈ Text.splitWhere isSeparator source, IdleLine storage line) :
    (∀ d ∈ (ofChars source).directives, d.Futile storage) ∧ (ofChars source).title = none ∧
      (ofChars source).subtitle = none := by
  have hfutile : ∀ d ∈ directivesOf source, d.Futile storage := by
    intro d hd
    rw [directivesOf_eq_filterMap] at hd
    obtain ⟨line, hline, hsome⟩ := List.mem_filterMap.mp hd
    obtain ⟨hlive, hdirective⟩ := Option.ite_none_right_eq_some.mp hsome
    rw [isLive, Bool.and_eq_true, Bool.not_eq_true', Bool.not_eq_true'] at hlive
    obtain hblank | hmark | hnone | ⟨d', hsome', hd'⟩ := h line hline
    · exact absurd (hblank.symm.trans hlive.1) Bool.noConfusion
    · exact absurd (hmark.symm.trans hlive.2) Bool.noConfusion
    · rw [hnone] at hdirective; cases hdirective
    · rw [hdirective] at hsome'
      cases hsome'
      exact hd'
  -- a caption is not futile
  have hnone {part : Directive → Option TextLine}
      (hpart : ∀ d : Directive, d.Futile storage → part d = none) :
      (directivesOf source).filterMap part = [] :=
    List.filterMap_eq_nil_iff.mpr fun d hd => hpart d (hfutile d hd)
  rw [ofChars_eq]
  refine ⟨fun d hd => ?_, ?_, ?_⟩
  · obtain ⟨d', hd', heffect⟩ := List.mem_filterMap.mp hd
    have hfutile' := hfutile d' hd'
    cases hfutile' <;> cases heffect <;> exact hfutile _ hd'
  · dsimp only
    rw [hnone fun d hd => by cases hd <;> rfl]
    rfl
  · dsimp only
    rw [hnone fun d hd => by cases hd <;> rfl]
    rfl

end Plan

end Script

namespace Render

open Script (Directive Plan)

namespace Canvas

/-! ### Runs with and without futile directives -/

namespace Alike

variable {r : Renderer} {c c' : Canvas}

/-- A futile directive is a step that one of two runs may take alone. -/
theorem apply_futile (h : Alike r.storage c c') {directive : Directive}
    (hfutile : directive.Futile r.storage) : Alike r.storage (c.apply r directive).1 c' := by
  cases directive with
  | image image =>
    obtain ⟨hfound, hassets⟩ := Cache.fetch_spec h.coherent image.key
    have hnext := h.withAssets hassets h.coherent'
    rw [Canvas.apply, drawImage_eq, hfound]
    cases hfetch : r.storage.fetch? image.key with
    | none => exact hnext
    | some picture =>
      -- a picture that is too large is not painted
      have hsize : Surface.maxSide < picture.width ∨ Surface.maxSide < picture.height :=
        Directive.futile_image_iff.mp hfutile picture hfetch
      dsimp only
      rw [Surface.drawPicture, if_pos hsize]
      exact hnext
  | zoom z =>
    have hwindow (scene : Vec Float) : z.window? scene = none := by
      have hfactor := Directive.futile_zoom_iff.mp hfutile
      rw [Script.Zoom.window?, if_neg]
      rw [Bool.and_eq_true]
      rintro ⟨hfinite, hpositive⟩
      exact hfactor ⟨hfinite, of_decide_eq_true hpositive⟩
    rw [Canvas.apply, Canvas.zoom, Script.Zoom.transform?, Script.Zoom.turned?, hwindow]
    exact h
  | title | subtitle | dark | light | blur | bloom | grayscale | sepia | invert | hue =>
    cases hfutile

/-- **Two runs of one list of directives**, one of which leaves out futile ones. -/
theorem afterAll_thinned (h : Alike r.storage c c') {directives thinned : List Directive}
    (hthinned : Directive.Thinned r.storage directives thinned) :
    Alike r.storage (c.afterAll r (directives.map .effect))
      (c'.afterAll r (thinned.map .effect)) := by
  induction hthinned generalizing c c' with
  | nil => exact h
  | keep directive _ ih => exact ih (h.apply directive)
  | leaveOut hfutile _ ih => exact ih (h.apply_futile hfutile)

/-- Each of two runs may fetch the pictures of a plan of its own beforehand. -/
theorem prepare (h : Alike r.storage c c') (plan plan' : Plan) :
    Alike r.storage (c.prepare r plan) (c'.prepare r plan') where
  surface_eq := by rw [surface_prepare, surface_prepare, h.surface_eq]
  fonts_eq := by
    rw [(alike_prepare h.coherent plan).fonts_eq, (alike_prepare h.coherent' plan').fonts_eq,
      h.fonts_eq]
  coherent := (alike_prepare h.coherent plan).coherent
  coherent' := (alike_prepare h.coherent' plan').coherent

end Alike

/-- A run that is never told to stop carries out the directives and then the captions. -/
theorem run_never_eq (r : Renderer) (c : Canvas) (plan : Plan) :
    c.run r .never plan =
      (.completed, ((c.prepare r plan).afterAll r (plan.directives.map .effect)).afterAll r
        ((plan.captions r.settings.titleSize.toFloat32 r.settings.subtitleSize.toFloat32).map
          .caption)) := by
  rw [run_never, after, List.take_length, stepsOf, afterAll, List.foldl_append]
  rfl

/-- **Leaving out futile directives is not noticed** by a run that is never told to stop. -/
theorem shown_run_thinned {r : Renderer} {c c' : Canvas} (h : Alike r.storage c c') {plan : Plan}
    {thinned : List Directive} (hthinned : Directive.Thinned r.storage plan.directives thinned) :
    shown (c.run r .never plan)
      = shown (c'.run r .never { plan with directives := thinned }) := by
  have heffects := (h.prepare plan { plan with directives := thinned }).afterAll_thinned hthinned
  rw [run_never_eq, run_never_eq]
  exact congrArg (Prod.mk _) (heffects.afterAll _).surface_eq

end Canvas

/-! ### Scenes that come to nothing -/

namespace Runner

/-- The surface that a render starts from is what a scene without directives looks like. -/
theorem baseline_eq_ok {r : Runner} {resources : Resources} {start : Canvas}
    (hstart : r.start resources = .ok start) : r.baseline resources = .ok start.surface := by
  rw [baseline, hstart]
  rfl

/-- **A source of idle lines** is rendered as a scene without directives. -/
theorem render_of_idleLines (r : Runner) {resources : Resources}
    (hcache : resources.assets.Coherent r.storage) {source : String}
    (h : ∀ line ∈ Text.splitWhere Script.isSeparator source.toList, Plan.IdleLine r.storage line) :
    ∃ surface rest, r.baseline resources = .ok surface ∧
      r.render resources source = .ok (surface, rest) := by
  obtain ⟨start, hstart, -⟩ := r.exists_start_eq_ok resources
  obtain ⟨hfutile, htitle, hsubtitle⟩ := Plan.ofChars_of_idleLines h
  have hcoherent : start.resources.assets.Coherent r.toRenderer.storage := by
    rw [resources_of_start_eq_ok hstart]
    exact hcache
  -- without its futile directives the plan is empty
  have hempty : ({ Plan.parse source with directives := [] } : Plan).isEmpty = true := by
    rw [Plan.isEmpty, Plan.parse, htitle, hsubtitle]
    rfl
  have hrun := Canvas.shown_run_thinned (r := r.toRenderer) (.refl hcoherent)
    (@Directive.thinned_nil _ (Plan.parse source).directives hfutile)
  rw [Canvas.run_of_isEmpty _ _ _ hempty, shown, shown] at hrun
  have hsurface : (start.run r.toRenderer .never (Plan.parse source)).2.surface = start.surface :=
    (Prod.mk.inj hrun).2
  have hrender := render_eq_ok hstart source
  rw [hsurface] at hrender
  exact ⟨_, _, baseline_eq_ok hstart, hrender⟩

end Runner

/-- **Futile directives are not noticed.** Of two runs that are never told to stop and start from
one surface with any reachable caches, one may leave out any futile directives of the plan, and so
all of them: they end in the same way and show the same. And every source whose lines are blank, or
comments, or ask for nothing, or for something futile, is rendered, with whatever valid settings, as
a scene without directives. -/
theorem futile_directives_unnoticed :
    (∀ (r : Renderer) (surface : Surface) (fonts : Font.Book) (plan : Plan) (c c' : Cache),
      Reachable r.storage c → Reachable r.storage c' →
      shown (Canvas.run r .never ⟨surface, c, fonts⟩ plan)
        = shown (Canvas.run r .never ⟨surface, c', fonts⟩ (plan.withoutFutile r.storage)) ∧
      ∀ thinned, Directive.Thinned r.storage plan.directives thinned →
        shown (Canvas.run r .never ⟨surface, c, fonts⟩ plan)
          = shown (Canvas.run r .never ⟨surface, c', fonts⟩
              { plan with directives := thinned })) ∧
    ∀ (r : Runner) (resources : Resources) (source : String),
      Reachable r.storage resources.assets →
      (∀ line ∈ Text.splitWhere Script.isSeparator source.toList,
        Plan.IdleLine r.storage line) →
      ∃ surface rest, r.baseline resources = .ok surface ∧
        r.render resources source = .ok (surface, rest) := by
  refine ⟨fun r surface fonts plan c c' hc hc' => ?_, fun r resources source hcache hlines =>
    r.render_of_idleLines hcache.coherent hlines⟩
  have halike : Canvas.Alike r.storage ⟨surface, c, fonts⟩ ⟨surface, c', fonts⟩ :=
    ⟨rfl, rfl, hc.coherent, hc'.coherent⟩
  exact ⟨Canvas.shown_run_thinned halike (Directive.thinned_filter r.storage plan.directives),
    fun thinned hthinned => Canvas.shown_run_thinned halike hthinned⟩

/-- A picture without a file, one that cannot be decoded and a zoom by zero, between effects; and
a scene of a blank line, a comment and a title without a text. -/
theorem futile_directives_unnoticed_scene :
    let storage := Storage.ofTable [("gfx/crate.webp", .bytes #[1])]
    let settings : Settings := { sceneW := 2, sceneH := 1, marker := false }
    let r : Runner := { settings, storage, valid := rfl }
    let plan := Plan.parse "LIGHT & ghost & crate & ZOOM zoom:0 & INVERT"
    (plan.directives.map Directive.name = ["light", "image", "image", "zoom", "invert"] ∧
      (plan.withoutFutile storage).directives.map Directive.name = ["light", "invert"]) ∧
    shown (Canvas.run r.toRenderer .never ⟨⟨2, 1, .zeros 8⟩, {}, {}⟩ plan)
      = shown (Canvas.run r.toRenderer .never ⟨⟨2, 1, .zeros 8⟩, {}, {}⟩
          (plan.withoutFutile storage)) ∧
    (∀ line ∈ Text.splitWhere Script.isSeparator " \n%% a\nT".toList,
      Plan.IdleLine storage line) ∧
    ∃ surface rest, r.baseline {} = .ok surface ∧
      r.render {} " \n%% a\nT" = .ok (surface, rest) := by
  intro storage settings r plan
  have hlines : Text.splitWhere Script.isSeparator " \n%% a\nT".toList
      = [[' '], ['%', '%', ' ', 'a'], ['T']] := by decide +kernel
  have htitle : Plan.directiveOf? ['T'] = none :=
    Option.isNone_iff_eq_none.mp (by decide +kernel)
  have hidle : ∀ line ∈ Text.splitWhere Script.isSeparator " \n%% a\nT".toList,
      Plan.IdleLine storage line := by
    rw [hlines]
    simp only [List.mem_cons, List.not_mem_nil, or_false]
    rintro line (rfl | rfl | rfl)
    · exact .inl (by decide)
    · exact .inr (.inl (by decide))
    · exact .inr (.inr (.inl htitle))
  exact ⟨⟨by decide +kernel, by decide +kernel⟩,
    (futile_directives_unnoticed.1 r.toRenderer _ {} plan {} {} .empty .empty).1, hidle,
    futile_directives_unnoticed.2 r {} _ .empty hidle⟩

end Render

end SceneCanvas
