import SceneCanvas.Proofs.Cancellation
import SceneCanvas.Proofs.Exchange

/-!
# One access per question

One cache serves a whole history of lookups and renders, each with a storage of its own. Whatever
the history, a file is read at most once and the candidates of an identifier are tried at most
once, failures included (`Render.one_access_per_question`).

Every `Render.Operation` comes down to exchanges with the cache: `Render.Operation.exchanges` lists
them with the answers that the operation is given, and `Render.Operation.asked` says that nothing
else happens to the cache. For renders this rests on `Render.Canvas.assets_performAll`: the steps
of a run do to the cache what fetching the pictures in `Render.Canvas.lookups` does.
-/

namespace SceneCanvas.Render

open Asset (Asked Cache Exchange Storage candidates firstStorage?)
open Script (Directive Plan)

/-- The identifiers that a step looks up. -/
def Step.keys : Step → List String
  | .effect (.image image) => [image.key]
  | _ => []

namespace Canvas

/-! ### What steps look up -/

variable {r : Renderer} {poll : Poll}

theorem resources_replaceData (c : Canvas) (data : Except SceneError Buffer) :
    (c.replaceData data).1.resources = c.resources := by
  cases data <;> rfl

theorem resources_replaceSurface (c : Canvas) (spoilt : Surface)
    (surface : Except SceneError Surface) :
    (c.replaceSurface spoilt surface).1.resources = c.resources := by
  cases surface <;> rfl

theorem resources_zoom (raster : Rasterizer) (c : Canvas) (z : Script.Zoom Float) :
    (c.zoom raster z).1.resources = c.resources := by
  rw [zoom]
  split
  next => rfl
  next =>
    split
    next => rfl
    next => exact resources_replaceSurface ..

theorem resources_blur (c : Canvas) (pixels : UInt32) (tones : List (Tone Float32)) :
    (c.blur pixels tones).1.resources = c.resources := by
  rw [blur]
  split
  next => rfl
  next => exact resources_replaceData ..

/-- **A step** does to the cache what fetching its pictures does. -/
theorem assets_perform (c : Canvas) (step : Step) :
    (c.perform r step).resources.assets
      = c.resources.assets.fetchAll r.storage step.keys := by
  cases step with
  | caption caption => exact assets_paint r c caption
  | effect directive =>
    cases directive with
    | title | subtitle | dark | light | grayscale | sepia | invert | hue => rfl
    | blur pixels tones => exact congrArg Resources.assets (resources_blur c pixels tones)
    | bloom pixels alpha => exact congrArg Resources.assets (resources_replaceData c _)
    | zoom z => exact congrArg Resources.assets (resources_zoom r.raster c z)
    | image image =>
      rw [perform, apply, drawImage_eq]
      dsimp only
      split
      next => rfl
      next => exact congrArg Resources.assets (resources_replaceSurface ..)

/-- The identifiers that steps look up until told to stop, in order. -/
def lookups (r : Renderer) (poll : Poll) (asked : Nat) (c : Canvas) : List Step → List String
  | [] => []
  | step :: rest =>
    if poll asked c.resources.assets then []
    else step.keys ++ lookups r poll (asked + 1) (c.perform r step) rest

/-- **A run of steps** does to the cache what fetching their pictures does. -/
theorem assets_performAll (asked : Nat) (c : Canvas) (steps : List Step) :
    (c.performAll r poll asked steps).2.resources.assets
      = c.resources.assets.fetchAll r.storage (c.lookups r poll asked steps) := by
  induction steps generalizing asked c with
  | nil => rfl
  | cons step rest ih =>
    rw [performAll, lookups]
    split
    next => rfl
    next => rw [ih, assets_perform, Cache.fetchAll, Cache.fetchAll, Cache.fetchAll,
        List.foldl_append]

/-- The identifiers that a run looks up, those fetched beforehand and those of its steps. -/
def lookupsVisiting (r : Renderer) (poll : Poll) (identifiers : List String) (c : Canvas)
    (plan : Plan) : List String :=
  let c := { c with resources.assets := c.resources.assets.fetchAll r.storage identifiers }
  identifiers ++ c.lookups r poll 0 (stepsOf r.settings plan)

theorem assets_runVisiting (identifiers : List String) (c : Canvas) (plan : Plan) :
    (c.runVisiting r poll identifiers plan).2.resources.assets
      = c.resources.assets.fetchAll r.storage (c.lookupsVisiting r poll identifiers plan) := by
  rw [runVisiting, assets_performAll, lookupsVisiting, Cache.fetchAll, Cache.fetchAll,
    Cache.fetchAll, List.foldl_append]

/-- The identifiers that a run looks up. -/
def lookupsOfRun (r : Renderer) (poll : Poll) (c : Canvas) (plan : Plan) : List String :=
  let visited := if r.settings.prefetch ∧ 2 ≤ plan.imageKeys.length then plan.imageKeys else []
  c.lookupsVisiting r poll visited plan

theorem assets_run (c : Canvas) (plan : Plan) :
    (c.run r poll plan).2.resources.assets
      = c.resources.assets.fetchAll r.storage (c.lookupsOfRun r poll plan) := by
  rw [run_eq_runVisiting, assets_runVisiting, lookupsOfRun]

end Canvas

namespace Runner

/-- The identifiers that carrying out a source looks up. -/
def lookups (r : Runner) (poll : Poll) (resources : Resources) (source : String) : List String :=
  match r.start resources with
  | .ok c => c.lookupsOfRun r.toRenderer poll (Plan.parse source)
  | .error _ => []

variable {r : Runner} {poll : Poll} {resources resources' : Resources} {source : String}

theorem assets_of_start_eq_ok {start : Canvas} (hstart : r.start resources = .ok start) :
    (start.run r.toRenderer poll (Plan.parse source)).2.resources.assets
      = resources.assets.fetchAll r.storage (r.lookups poll resources source) := by
  rw [Canvas.assets_run, lookups, hstart, resources_of_start_eq_ok hstart]

end Runner

/-! ### Histories -/

/-- What can be done with a cache. Every operation brings the storage that it is to be done with. -/
inductive Operation where
  | resolve (storage : Storage) (identifier : String)
  | load (storage : Storage) (path : String)
  | fetch (storage : Storage) (identifier : String)
  /-- Fetch several pictures, in any order. -/
  | fetchAll (storage : Storage) (identifiers : List String)
  | run (r : Renderer) (poll : Poll) (surface : Surface) (fonts : Font.Book) (plan : Plan)
  /-- Run a plan with some pictures fetched beforehand, in any order. -/
  | runVisiting (r : Renderer) (poll : Poll) (identifiers : List String) (surface : Surface)
      (fonts : Font.Book) (plan : Plan)
  | render (r : Runner) (fonts : Font.Book) (source : String)
  | renderUnless (r : Runner) (poll : Poll) (fonts : Font.Book) (source : String)

namespace Operation

/-- The cache that a render leaves. A render that fails has not come to use the cache. -/
def assetsOr {α : Type} (c : Cache) : Except SceneError (α × Resources) → Cache
  | .ok (_, resources) => resources.assets
  | .error _ => c

/-- The cache after an operation. -/
def after (c : Cache) : Operation → Cache
  | resolve storage identifier => (c.resolve storage identifier).2
  | load storage path => (c.load storage path).2
  | fetch storage identifier => (c.fetch storage identifier).2
  | fetchAll storage identifiers => c.fetchAll storage identifiers
  | run r poll surface fonts plan =>
    (Canvas.run r poll ⟨surface, c, fonts⟩ plan).2.resources.assets
  | runVisiting r poll identifiers surface fonts plan =>
    (Canvas.runVisiting r poll identifiers ⟨surface, c, fonts⟩ plan).2.resources.assets
  | render r fonts source => assetsOr c (r.render ⟨c, fonts⟩ source)
  | renderUnless r poll fonts source => assetsOr c (r.renderUnless poll ⟨c, fonts⟩ source)

/-- The questions of an operation, with the answers that it is given. -/
def exchanges (c : Cache) : Operation → List Exchange
  | resolve storage identifier =>
    [⟨storage, .file identifier, .file (c.resolve storage identifier).1⟩]
  | load storage path => [⟨storage, .picture path, .picture (c.load storage path).1⟩]
  | fetch storage identifier => c.fetchExchanges storage identifier
  | fetchAll storage identifiers => c.fetchAllExchanges storage identifiers
  | run r poll surface fonts plan =>
    c.fetchAllExchanges r.storage (Canvas.lookupsOfRun r poll ⟨surface, c, fonts⟩ plan)
  | runVisiting r poll identifiers surface fonts plan =>
    c.fetchAllExchanges r.storage
      (Canvas.lookupsVisiting r poll identifiers ⟨surface, c, fonts⟩ plan)
  | render r fonts source =>
    c.fetchAllExchanges r.storage (r.lookups .never ⟨c, fonts⟩ source)
  | renderUnless r poll fonts source =>
    if poll 0 c then []
    else c.fetchAllExchanges r.storage (r.lookups (poll.after 1) ⟨c, fonts⟩ source)

theorem after_render (c : Cache) (r : Runner) (fonts : Font.Book) (source : String) :
    (render r fonts source).after c
      = c.fetchAll r.storage (r.lookups .never ⟨c, fonts⟩ source) := by
  obtain ⟨start, hstart, -⟩ := r.exists_start_eq_ok ⟨c, fonts⟩
  rw [after, Runner.render_eq_ok hstart]
  exact Runner.assets_of_start_eq_ok hstart

theorem after_renderUnless_of_go (c : Cache) (r : Runner) {poll : Poll} (hgo : poll 0 c = false)
    (fonts : Font.Book) (source : String) :
    (renderUnless r poll fonts source).after c
      = c.fetchAll r.storage (r.lookups (poll.after 1) ⟨c, fonts⟩ source) := by
  obtain ⟨start, hstart, -⟩ := r.exists_start_eq_ok ⟨c, fonts⟩
  rw [after, Runner.renderUnless_eq_ok hstart hgo, ← Runner.assets_of_start_eq_ok hstart]
  generalize start.run r.toRenderer (poll.after 1) (Plan.parse source) = outcome
  obtain ⟨_ | _, c⟩ := outcome <;> rfl

/-- **One operation** does to the cache what its exchanges do. -/
theorem asked (c : Cache) (operation : Operation) :
    Asked c (operation.exchanges c) (operation.after c) := by
  cases operation with
  | resolve storage identifier => exact .cons storage (.file identifier) (.nil _)
  | load storage path => exact .cons storage (.picture path) (.nil _)
  | fetch storage identifier => exact c.asked_fetch storage identifier
  | fetchAll storage identifiers => exact c.asked_fetchAll storage identifiers
  | run r poll surface fonts plan =>
    rw [after, Canvas.assets_run]
    exact c.asked_fetchAll r.storage _
  | runVisiting r poll identifiers surface fonts plan =>
    rw [after, Canvas.assets_runVisiting]
    exact c.asked_fetchAll r.storage _
  | render r fonts source =>
    rw [after_render]
    exact c.asked_fetchAll r.storage _
  | renderUnless r poll fonts source =>
    cases hanswer : poll 0 c with
    | true =>
      rw [exchanges, if_pos hanswer, after, Runner.renderUnless_of_stop hanswer]
      exact .nil c
    | false =>
      rw [exchanges, if_neg (ne_true_of_eq_false hanswer), after_renderUnless_of_go c r hanswer]
      exact c.asked_fetchAll r.storage _

/-- The cache after some operations. -/
def afterAll (c : Cache) (history : List Operation) : Cache := history.foldl after c

/-- The questions of some operations in order, with the answers that were given. -/
def exchangesOfAll (c : Cache) : List Operation → List Exchange
  | [] => []
  | operation :: history =>
    operation.exchanges c ++ exchangesOfAll (operation.after c) history

/-- **A history** does to the cache what its exchanges do. -/
theorem asked_afterAll (c : Cache) (history : List Operation) :
    Asked c (exchangesOfAll c history) (afterAll c history) := by
  induction history generalizing c with
  | nil => exact .nil c
  | cons operation history ih => exact (operation.asked c).append (ih _)

end Operation

/-- **One access per question**, over any history of operations on one cache. No access is made
twice, and none but for a question that was asked: a file is read once if its picture was asked
for, whatever came of it, and the candidates of an identifier are tried once if it was looked up,
in order and up to the first one that exists. Every answer is the one that the storage gave which
was there when the question was asked for the first time, and whoever asks again, with any storage,
is given that answer and makes no access. The counts are those of the different identifiers looked
up and of the different files loaded. Every question has one entry, which later operations neither
change nor take out. -/
theorem one_access_per_question (history : List Operation) :
    let c := Operation.afterAll {} history
    let exchanges := Operation.exchangesOfAll {} history
    (c.accesses.Nodup ∧
      (∀ access ∈ c.accesses, ∃ e ∈ exchanges, access.isFor e.question = true) ∧
      (∀ path, c.accesses.count (.read path)
        = if (firstStorage? exchanges (.picture path)).isSome then 1 else 0) ∧
      ∀ identifier, candidates identifier = ["gfx/" ++ identifier ++ ".webp",
          "gfx/" ++ identifier ++ ".png", "gfx/" ++ identifier ++ ".jpg",
          "gfx/" ++ identifier ++ ".jpeg"] ∧
        c.probedPaths.filter ((candidates identifier).contains ·)
          = ((firstStorage? exchanges (.file identifier)).map
              (·.tried (candidates identifier))).getD []) ∧
    (∀ e ∈ exchanges,
      (∃ first, firstStorage? exchanges e.question = some first ∧
        e.answer = first.answer e.question) ∧
      ∀ storage, c.ask storage e.question = (e.answer, c)) ∧
    (c.resolvedCount = (exchanges.filterMap (·.question.identifier?)).toFinset.card ∧
      c.pictureCount = (exchanges.filterMap (·.question.path?)).toFinset.card) ∧
    c.paths.keys.Nodup ∧ c.pictures.keys.Nodup ∧
      ∀ later, c.Extends (Operation.afterAll c later) := by
  intro c exchanges
  have htold : c.Told exchanges := Cache.Told.empty.asked (Operation.asked_afterAll {} history)
  refine ⟨⟨htold.nodup_accesses, htold.asked_of_mem, htold.count_read, fun identifier =>
      ⟨rfl, htold.probedPaths_eq identifier⟩⟩, fun e he => ⟨?first, fun storage => ?again⟩,
    ⟨htold.resolvedCount_eq, htold.pictureCount_eq⟩, htold.nodup_paths, htold.nodup_pictures,
    fun later => (Operation.asked_afterAll c later).extends⟩
  case first =>
    have hknown := htold.answer_eq e he
    rw [htold.known?_eq] at hknown
    obtain ⟨first, hfirst, hanswer⟩ := Option.map_eq_some_iff.mp hknown
    exact ⟨first, hfirst, hanswer.symm⟩
  case again => exact Cache.ask_of_known (htold.answer_eq e he)

/-- A picture that is there and then gone, and one that is missing and then there, looked up by
themselves and in a render. -/
theorem one_access_per_question_changing :
    let storage := Storage.ofTable [("gfx/bob.png", .image 1 1 .rgba #[255, 0, 0, 128])]
    let storage' := Storage.ofTable [("gfx/eve.webp", .image 1 1 .rgba #[0, 255, 0, 255])]
    let r : Runner :=
      { settings := { sceneW := 1, sceneH := 1 }, storage := storage', valid := rfl }
    let history : List Operation :=
      [.fetch storage "bob", .resolve storage "eve", .fetch storage' "bob",
        .render r {} "bob & eve"]
    let c := Operation.afterAll {} history
    c.accesses.count (.read "gfx/bob.png") = 1 ∧
      c.probedPaths.filter ((candidates "eve").contains ·)
        = ["gfx/eve.webp", "gfx/eve.png", "gfx/eve.jpg", "gfx/eve.jpeg"] ∧
      c.ask storage' (.file "eve") = (.file none, c) := by
  intro storage storage' r history c
  obtain ⟨⟨-, -, hread, hprobed⟩, hanswer, -⟩ := one_access_per_question history
  -- the second operation asks for a file that is not there yet
  have hmissing : ⟨storage, .file "eve", .file none⟩ ∈ Operation.exchangesOfAll {} history :=
    List.mem_append_right _ (List.mem_append_left _ (List.mem_singleton.mpr rfl))
  exact ⟨(hread "gfx/bob.png").trans rfl, (hprobed "eve").2.trans rfl,
    (hanswer _ hmissing).2 storage'⟩

end SceneCanvas.Render
