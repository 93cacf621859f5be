import SceneCanvas.Render.Run
import SceneCanvas.Proofs.Transparency

/-!
# How far a run gets

A run carries out the steps of a plan in order and asks before each of them whether to stop. So it
has carried out the first `k` steps, where `k` is the number of answers to go on before the first
answer to stop, and `Render.Canvas.run_eq` says that the run is cancelled just if a step is left.

The questions and steps in between are written down by `Render.Canvas.performLogged`, which does
what `Render.Canvas.performAll` does: one question before each step, and after an answer to stop
neither a question nor a step (`Render.Canvas.performLogged_eq`).

Pictures fetched before the first step are no part of the steps. They change what the cache knows
and nothing that is drawn (`Render.Canvas.alike_prepare`).
-/

namespace SceneCanvas.Render

open Script (Plan)

/-- What happens in a run: the question whether to stop gets an answer, or a step is carried out. -/
inductive Event where
  | asked (stop : Bool)
  | performed (step : Step)

/-- What happens in a run that carries out the first `k` steps: one question before each of them,
and another one, answered by stopping, if a step is left. -/
def eventsOf (steps : List Step) (k : Nat) : List Event :=
  (steps.take k).flatMap (fun step => [.asked false, .performed step])
    ++ if k < steps.length then [.asked true] else []

namespace Canvas

/-- The canvas after some steps. -/
def afterAll (r : Renderer) (c : Canvas) (steps : List Step) : Canvas := steps.foldl (perform r) c

/-- Carry out steps until told to stop, and write down what happens. -/
def performLogged (r : Renderer) (poll : Poll) (asked : Nat) (c : Canvas) :
    List Step → List Event × Ending × Canvas
  | [] => ([], .completed, c)
  | step :: rest =>
    if poll asked c.resources.assets then ([.asked true], .cancelled, c)
    else
      let (events, outcome) := performLogged r poll (asked + 1) (c.perform r step) rest
      (.asked false :: .performed step :: events, outcome)

/-- The answers are to go on before each of the first `k` steps, and to stop if a step is left. -/
structure StopsAfter (r : Renderer) (poll : Poll) (asked : Nat) (c : Canvas) (steps : List Step)
    (k : Nat) : Prop where
  le_length : k ≤ steps.length
  goes_on : ∀ i < k, poll (asked + i) (c.afterAll r (steps.take i)).resources.assets = false
  stops : k < steps.length →
    poll (asked + k) (c.afterAll r (steps.take k)).resources.assets = true

section Logged

variable {r : Renderer} {poll : Poll}

/-- Writing down what happens does not change it. -/
theorem performLogged_snd (asked : Nat) (c : Canvas) (steps : List Step) :
    (c.performLogged r poll asked steps).2 = c.performAll r poll asked steps := by
  induction steps generalizing asked c with
  | nil => rfl
  | cons step rest ih =>
    rw [performLogged, performAll]
    split
    next => rfl
    next => exact ih (asked + 1) (c.perform r step)

/-- There is a first answer to stop, or none at all. -/
theorem exists_stopsAfter (asked : Nat) (c : Canvas) (steps : List Step) :
    ∃ k, c.StopsAfter r poll asked steps k := by
  induction steps generalizing asked c with
  | nil => exact ⟨0, Nat.le_refl 0, fun i hi => absurd hi (Nat.not_lt_zero i),
      fun h => absurd h (Nat.not_lt_zero 0)⟩
  | cons step rest ih =>
    cases hanswer : poll asked c.resources.assets with
    | true => exact ⟨0, Nat.zero_le _, fun i hi => absurd hi (Nat.not_lt_zero i), fun _ => hanswer⟩
    | false =>
      obtain ⟨k, hle, hgoes, hstops⟩ := ih (asked + 1) (c.perform r step)
      refine ⟨k + 1, Nat.succ_le_succ hle, fun i hi => ?_, fun hk => ?_⟩
      · cases i with
        | zero => exact hanswer
        | succ i =>
          have hnext := hgoes i (Nat.lt_of_succ_lt_succ hi)
          rwa [Nat.add_right_comm, Nat.add_assoc] at hnext
      · have hnext := hstops (Nat.lt_of_succ_lt_succ hk)
        rwa [Nat.add_right_comm, Nat.add_assoc] at hnext

/-- **Steps are carried out up to the first answer to stop**, with one question before each. -/
theorem performLogged_eq {asked : Nat} {c : Canvas} {steps : List Step} {k : Nat}
    (h : c.StopsAfter r poll asked steps k) :
    c.performLogged r poll asked steps = (eventsOf steps k,
      if k < steps.length then .cancelled else .completed, c.afterAll r (steps.take k)) := by
  induction steps generalizing asked c k with
  | nil =>
    obtain rfl := Nat.eq_zero_of_le_zero h.le_length
    rfl
  | cons step rest ih =>
    rw [performLogged]
    cases k with
    | zero =>
      have hanswer : poll asked c.resources.assets = true := h.stops (Nat.succ_pos _)
      rw [if_pos hanswer]
      rfl
    | succ k =>
      have hanswer : poll asked c.resources.assets = false := h.goes_on 0 (Nat.succ_pos k)
      -- the answers after the first one, for the steps after the first one
      have hrest : (c.perform r step).StopsAfter r poll (asked + 1) rest k := by
        refine ⟨Nat.le_of_succ_le_succ h.le_length, fun i hi => ?_, fun hk => ?_⟩
        · rw [Nat.add_right_comm, Nat.add_assoc]
          exact h.goes_on (i + 1) (Nat.succ_lt_succ hi)
        · rw [Nat.add_right_comm, Nat.add_assoc]
          exact h.stops (Nat.succ_lt_succ hk)
      rw [if_neg (by rw [hanswer]; exact Bool.false_ne_true), ih hrest]
      simp only [eventsOf, List.take_succ_cons, List.flatMap_cons, List.length_cons,
        Nat.add_lt_add_iff_right, afterAll, List.foldl_cons, List.cons_append, List.nil_append]

end Logged

/-! ### Runs of a plan -/

/-- The canvas that the steps of a plan start from: pictures may have been fetched. -/
def prepare (r : Renderer) (c : Canvas) (plan : Plan) : Canvas :=
  if r.settings.prefetch then c.prefetch r plan else c

/-- The canvas after the first `k` steps of a plan. -/
def after (r : Renderer) (c : Canvas) (plan : Plan) (k : Nat) : Canvas :=
  (c.prepare r plan).afterAll r ((stepsOf r.settings plan).take k)

/-- Fetching pictures draws nothing. -/
theorem surface_prepare (r : Renderer) (c : Canvas) (plan : Plan) :
    (c.prepare r plan).surface = c.surface := by
  rw [prepare, prefetch]
  split
  next => split <;> rfl
  next => rfl

/-- A canvas is not told apart from itself after fetching pictures. -/
theorem alike_prepare {r : Renderer} {c : Canvas} (h : c.resources.assets.Coherent r.storage)
    (plan : Plan) : Alike r.storage (c.prepare r plan) c := by
  rw [prepare, prefetch]
  split
  next =>
    dsimp only
    split
    next => exact .refl h
    next => exact (Alike.refl h).withAssets (h.fetchAll _) h
  next => exact .refl h

theorem Alike.afterAll {r : Renderer} {c c' : Canvas} (h : Alike r.storage c c')
    (steps : List Step) : Alike r.storage (c.afterAll r steps) (c'.afterAll r steps) := by
  induction steps generalizing c c' with
  | nil => exact h
  | cons step rest ih => exact ih (h.perform step)

/-- A run stops after the first `k` steps of its plan. -/
def RunStopsAfter (r : Renderer) (poll : Poll) (c : Canvas) (plan : Plan) (k : Nat) : Prop :=
  (c.prepare r plan).StopsAfter r poll 0 (stepsOf r.settings plan) k

/-- **A run is the first steps of its plan**, up to the first answer to stop. -/
theorem run_eq {r : Renderer} {poll : Poll} {c : Canvas} {plan : Plan} {k : Nat}
    (h : c.RunStopsAfter r poll plan k) :
    c.run r poll plan =
      (if k < (stepsOf r.settings plan).length then .cancelled else .completed,
        c.after r plan k) := by
  have hrun : c.run r poll plan
      = (c.prepare r plan).performAll r poll 0 (stepsOf r.settings plan) := rfl
  rw [hrun, ← performLogged_snd, performLogged_eq h]
  rfl

/-- A run that is never told to stop carries out the whole plan. -/
theorem run_never (r : Renderer) (c : Canvas) (plan : Plan) :
    c.run r .never plan = (.completed, c.after r plan (stepsOf r.settings plan).length) := by
  have hnever : c.RunStopsAfter r .never plan (stepsOf r.settings plan).length :=
    ⟨Nat.le_refl _, fun _ _ => rfl, fun h => absurd h (Nat.lt_irrefl _)⟩
  rw [run_eq hnever, if_neg (Nat.lt_irrefl _)]

/-- A run that is completed has carried out the whole plan. -/
theorem run_eq_run_never {r : Renderer} {poll : Poll} {c : Canvas} {plan : Plan}
    (h : (c.run r poll plan).1 = .completed) : c.run r poll plan = c.run r .never plan := by
  obtain ⟨k, hk⟩ : ∃ k, c.RunStopsAfter r poll plan k := exists_stopsAfter ..
  rw [run_eq hk] at h
  have hlength : k = (stepsOf r.settings plan).length := by
    refine Nat.le_antisymm hk.le_length (Nat.not_lt.mp fun hlt => ?_)
    rw [if_pos hlt] at h
    cases h
  rw [run_never, run_eq hk, hlength, if_neg (Nat.lt_irrefl _)]

/-- A plan that asks for nothing has no steps and no pictures to fetch. -/
theorem run_of_isEmpty (r : Renderer) (poll : Poll) (c : Canvas) {plan : Plan}
    (h : plan.isEmpty = true) : c.run r poll plan = (.completed, c) := by
  obtain ⟨directives, title, subtitle⟩ := plan
  simp only [Plan.isEmpty, Bool.and_eq_true, List.isEmpty_iff, Option.isNone_iff_eq_none] at h
  obtain ⟨⟨rfl, rfl⟩, rfl⟩ := h
  rw [run]
  split <;> rfl

end Canvas

/-- **A source is carried out as its plan is.** Leaving out the steps of a plan without any makes
no difference. -/
theorem Runner.runSource_eq_ok {r : Runner} {resources : Resources} {start : Canvas}
    (hstart : r.start resources = .ok start) (poll : Poll) (source : String) :
    r.runSource poll resources source
      = .ok (start.run r.toRenderer poll (Plan.parse source)) := by
  refine bind_eq_ok_iff.mpr ⟨start, hstart, ?_⟩
  dsimp only
  split
  next hempty => rw [Canvas.run_of_isEmpty _ _ _ hempty]; rfl
  next => rfl

end SceneCanvas.Render
