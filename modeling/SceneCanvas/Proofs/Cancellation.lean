import SceneCanvas.Proofs.Shape

/-!
# Cancelled runs

A run that is told to stop has carried out a clean prefix of its plan, and the two ways to render a
source agree: unless it is told to stop, `Render.Runner.renderUnless` hands out what
`Render.Runner.render` does, and otherwise it hands out nothing.

* `Render.Runner.render_eq_ok` and `Render.Runner.renderUnless_eq_ok` say what either of them comes
  to on the canvas that both start from.
* `Render.cancelled_run_is_prefix` puts together runs and renders.
-/

namespace SceneCanvas.Render

open Script (Plan)

namespace Runner

variable {r : Runner} {resources : Resources} {start : Canvas}

/-- A render hands out what a run that is never told to stop leaves. -/
theorem render_eq_ok (hstart : r.start resources = .ok start) (source : String) :
    r.render resources source =
      .ok ((start.run r.toRenderer .never (Plan.parse source)).2.surface,
        (start.run r.toRenderer .never (Plan.parse source)).2.resources) := by
  rw [render, runSource_eq_ok hstart]
  generalize start.run r.toRenderer .never (Plan.parse source) = outcome
  rfl

/-- Told to stop at once, a render does nothing. -/
theorem renderUnless_of_stop {poll : Poll} (hstop : poll 0 resources.assets = true)
    (source : String) : r.renderUnless poll resources source = .ok (none, resources) := by
  rw [renderUnless, if_pos hstop]
  rfl

/-- What a render hands out for a run: the surface if the run was completed. -/
def handOut : Ending × Canvas → Option Surface × Resources
  | (.completed, c) => (some c.surface, c.resources)
  | (.cancelled, c) => (none, c.resources)

/-- Not told to stop at once, a render hands out what its run leaves if that was completed. -/
theorem renderUnless_eq_ok (hstart : r.start resources = .ok start) {poll : Poll}
    (hgo : poll 0 resources.assets = false) (source : String) :
    r.renderUnless poll resources source =
      .ok (handOut (start.run r.toRenderer (poll.after 1) (Plan.parse source))) := by
  rw [renderUnless, if_neg (by rw [hgo]; exact Bool.false_ne_true), runSource_eq_ok hstart]
  generalize start.run r.toRenderer (poll.after 1) (Plan.parse source) = outcome
  obtain ⟨_ | _, c⟩ := outcome <;> rfl

theorem handOut_eq_none_iff {outcome : Ending × Canvas} :
    (handOut outcome).1 = none ↔ outcome.1 = .cancelled := by
  obtain ⟨_ | _, c⟩ := outcome
  · exact iff_of_false nofun nofun
  · exact iff_of_true rfl rfl

theorem eq_of_handOut_eq_some {outcome : Ending × Canvas} {surface : Surface}
    (h : (handOut outcome).1 = some surface) : surface = outcome.2.surface := by
  obtain ⟨_ | _, c⟩ := outcome
  · exact (Option.some.inj h).symm
  · cases h

/-- **A render does not fail**, and it hands out the surface of its run unless it is told to stop
at once or its run is cancelled. -/
theorem exists_renderUnless_eq_ok (hstart : r.start resources = .ok start) (poll : Poll)
    (source : String) :
    ∃ surface? rest, r.renderUnless poll resources source = .ok (surface?, rest) ∧
      (surface? = none ↔ poll 0 resources.assets = true ∨
        (start.run r.toRenderer (poll.after 1) (Plan.parse source)).1 = .cancelled) ∧
      ∀ surface, surface? = some surface →
        surface = (start.run r.toRenderer (poll.after 1) (Plan.parse source)).2.surface := by
  cases hanswer : poll 0 resources.assets with
  | true =>
    refine ⟨_, _, renderUnless_of_stop hanswer source, ?_, nofun⟩
    exact iff_of_true rfl (.inl rfl)
  | false =>
    rw [renderUnless_eq_ok hstart hanswer]
    generalize start.run r.toRenderer (poll.after 1) (Plan.parse source) = outcome
    refine ⟨_, _, rfl, ?_, fun surface hsurface => eq_of_handOut_eq_some hsurface⟩
    rw [or_iff_right Bool.false_ne_true]
    exact handOut_eq_none_iff

/-- **Never told to stop**, a render hands out what a whole one does. -/
theorem renderUnless_never (hstart : r.start resources = .ok start) (source : String) :
    r.renderUnless .never resources source =
      .ok (some (start.run r.toRenderer .never (Plan.parse source)).2.surface,
        (start.run r.toRenderer .never (Plan.parse source)).2.resources) := by
  have hnever : Poll.never.after 1 = .never := rfl
  rw [renderUnless_eq_ok hstart rfl, hnever, Canvas.run_never, handOut]

/-- **No part of a picture is handed out**: what is handed out is a whole render. -/
theorem render_of_renderUnless_eq_some (hstart : r.start resources = .ok start) {poll : Poll}
    {source : String} {surface : Surface} {rest : Resources}
    (h : r.renderUnless poll resources source = .ok (some surface, rest)) :
    r.render resources source = .ok (surface, rest) := by
  cases hanswer : poll 0 resources.assets with
  | true => rw [renderUnless_of_stop hanswer] at h; cases h
  | false =>
    rw [renderUnless_eq_ok hstart hanswer] at h
    -- the run behind the render, which is one that was never told to stop if it was completed
    have hwhole (h : (start.run r.toRenderer (poll.after 1) (Plan.parse source)).1 = .completed) :=
      Canvas.run_eq_run_never h
    rw [render_eq_ok hstart]
    generalize start.run r.toRenderer (poll.after 1) (Plan.parse source) = outcome at h hwhole
    obtain ⟨_ | _, c⟩ := outcome
    · rw [← hwhole rfl]
      cases h
      rfl
    · cases h

end Runner

/-- **A cancelled run is a clean prefix.** Every run of a plan on any canvas, with any answers to
the question whether to stop, carries out the first `k` steps of the plan: it asks once before each
step, all the answers before these steps are to go on, and if a step is left, the answer before it
is to stop, and nothing comes after that answer. The run leaves the canvas after these steps, which
is drawn as though no pictures had been fetched beforehand, and it is cancelled just if a step is
left.

And a render always has a result, from a run of the plan of its source on the canvas that all
renders start from. A whole render hands out the surface of the run that is never told to stop, and
so does the other one if it is never told to stop. Else this one hands out nothing just if it is
told to stop at once or its run is cancelled; and if it hands out a surface, that is the one its run
has left, and the surface of a whole render. -/
theorem cancelled_run_is_prefix :
    (∀ (r : Renderer) (poll : Poll) (c : Canvas) (plan : Plan),
      let steps := stepsOf r.settings plan
      ∃ k, c.RunStopsAfter r poll plan k ∧
        (c.prepare r plan).performLogged r poll 0 steps = (eventsOf steps k, c.run r poll plan) ∧
        (c.prepare r plan).surface = c.surface ∧
        (c.run r poll plan).2 = (c.prepare r plan).afterAll r (steps.take k) ∧
        (Reachable r.storage c.resources.assets →
          (c.run r poll plan).2.surface = (c.afterAll r (steps.take k)).surface) ∧
        ((c.run r poll plan).1 = .cancelled ↔ k < steps.length)) ∧
    ∀ (r : Runner) (resources : Resources) (source : String), ∃ start,
      r.start resources = .ok start ∧
      r.render resources source =
        .ok ((start.run r.toRenderer .never (Plan.parse source)).2.surface,
          (start.run r.toRenderer .never (Plan.parse source)).2.resources) ∧
      r.renderUnless .never resources source =
        .ok (some (start.run r.toRenderer .never (Plan.parse source)).2.surface,
          (start.run r.toRenderer .never (Plan.parse source)).2.resources) ∧
      ∀ poll : Poll, ∃ surface? rest,
        r.renderUnless poll resources source = .ok (surface?, rest) ∧
        (surface? = none ↔ poll 0 resources.assets = true ∨
          (start.run r.toRenderer (poll.after 1) (Plan.parse source)).1 = .cancelled) ∧
        ∀ surface, surface? = some surface →
          surface = (start.run r.toRenderer (poll.after 1) (Plan.parse source)).2.surface ∧
          r.render resources source = .ok (surface, rest) := by
  refine ⟨fun r poll c plan => ?run, fun r resources source => ?render⟩
  case run =>
    obtain ⟨k, hk⟩ : ∃ k, c.RunStopsAfter r poll plan k := Canvas.exists_stopsAfter ..
    have hrun := Canvas.run_eq hk
    refine ⟨k, hk, ?events, Canvas.surface_prepare r c plan, congrArg Prod.snd hrun,
      fun hcache => ?surface, ?ending⟩
    case events => rw [hrun]; exact Canvas.performLogged_eq hk
    case surface =>
      rw [hrun]
      exact ((Canvas.alike_prepare hcache.coherent plan).afterAll _).surface_eq
    case ending => rw [hrun]; simp
  case render =>
    obtain ⟨start, hstart, -⟩ := r.exists_start_eq_ok resources
    refine ⟨start, hstart, Runner.render_eq_ok hstart source,
      Runner.renderUnless_never hstart source, fun poll => ?_⟩
    obtain ⟨surface?, rest, hresult, hnone, hsurface⟩ :=
      Runner.exists_renderUnless_eq_ok hstart poll source
    refine ⟨surface?, rest, hresult, hnone, fun surface hsome => ⟨hsurface surface hsome, ?_⟩⟩
    exact Runner.render_of_renderUnless_eq_some hstart (hsome ▸ hresult)

/-- Two pictures that are not there, an order to stop before the second one, and renders that are
told to stop at once or never. -/
theorem cancelled_run_is_prefix_pictures :
    let storage := Asset.Storage.ofTable []
    let r : Runner := { settings := { sceneW := 2, sceneH := 1 }, storage, valid := rfl }
    let c : Canvas := ⟨⟨2, 1, .zeros 8⟩, {}⟩
    let plan := Plan.parse "bob & eve"
    let poll : Poll := .fixed (· == 1)
    (c.run r.toRenderer poll plan).1 = .cancelled ∧
      (c.run r.toRenderer poll plan).2.surface
        = (c.afterAll r.toRenderer ((stepsOf r.settings plan).take 1)).surface ∧
      (∃ rest, r.renderUnless (.fixed fun _ => true) {} "bob & eve" = .ok (none, rest)) ∧
      ∃ surface rest, r.renderUnless .never {} "bob & eve" = .ok (some surface, rest) ∧
        r.render {} "bob & eve" = .ok (surface, rest) := by
  intro storage r c plan poll
  have hlength : (stepsOf r.settings plan).length = 2 := by decide +kernel
  obtain ⟨k, hk, -, -, -, hsurface, hending⟩ :=
    cancelled_run_is_prefix.1 r.toRenderer poll c plan
  -- the first answer is to go on and the second one to stop
  have hone : k = 1 := by
    rcases k with _ | _ | k
    · exact absurd (hk.stops (by rw [hlength]; exact Nat.two_pos)) Bool.false_ne_true
    · rfl
    · exact absurd (hk.goes_on 1 (by omega)) Bool.noConfusion
  subst hone
  have hcancelled : (c.run r.toRenderer poll plan).1 = .cancelled :=
    hending.mpr (by rw [hlength]; exact Nat.one_lt_two)
  obtain ⟨start, -, hrender, hnever, hpolls⟩ := cancelled_run_is_prefix.2 r {} "bob & eve"
  obtain ⟨stopped?, rest₁, hstopped, hnone, -⟩ := hpolls (.fixed fun _ => true)
  obtain rfl := hnone.mpr (.inl rfl)
  obtain ⟨surface?, rest₂, hresult, -, hwhole⟩ := hpolls .never
  cases hnever.symm.trans hresult
  exact ⟨hcancelled, hsurface .empty, ⟨rest₁, hstopped⟩, _, _, hnever, (hwhole _ rfl).2⟩

end SceneCanvas.Render
