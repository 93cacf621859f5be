/-!
# Viewports

A viewport has a width that changes over time, and listeners that are told of every change. A
change tells the listeners that are registered at the moment it is made, in the order of their
registration, even if some of them go away meanwhile.

`Viewport` is the bookkeeping alone. `Session` runs listeners that themselves change the viewport
when they are first told of a width; the subscriptions belong to the session, and none of its
listeners owns one.
-/

namespace SceneCanvas.Host

/-- A width and the listeners to its changes, each with its number. -/
structure Viewport (κ : Type) where
  width : Float
  /-- The number of the next listener. -/
  nextId : Nat := 0
  /-- The listeners in the order of their registration. -/
  listeners : List (Nat × κ) := []
deriving Repr, Inhabited

namespace Viewport

variable {κ : Type}

/-- Register a listener; the answer is its number. -/
def subscribe (v : Viewport κ) (listener : κ) : Nat × Viewport κ :=
  (v.nextId, { v with nextId := v.nextId + 1, listeners := v.listeners ++ [(v.nextId, listener)] })

/-- Take a listener out of the list. What becomes of it then is said by `Traffic.discard`; a
listener that owns no subscription is just gone. -/
def unsubscribe (v : Viewport κ) (id : Nat) : Viewport κ :=
  { v with listeners := v.listeners.filter fun l => l.1 != id }

/-- Change the width; the answer is the listeners to tell. -/
def resize (v : Viewport κ) (width : Float) : List (Nat × κ) × Viewport κ :=
  (v.listeners, { v with width })

/-- The number of listeners. -/
def listenerCount (v : Viewport κ) : Nat := v.listeners.length

end Viewport

/-! ### Sessions -/

/-- Something that is done to a viewport, by its user or by a listener. -/
inductive Action where
  /-- Register a listener under a name, in place of an earlier one of that name. The listener does
  the given actions when it is told of a width for the first time. -/
  | subscribe (name : String) (reaction : List Action)
  /-- Take out the listener of a name. -/
  | unsubscribe (name : String)
  | resize (width : Float)
  /-- Do away with the viewport. -/
  | close
deriving Inhabited

mutual

/-- The number of actions in an action, counting those of the listeners it registers. -/
def Action.weight : Action → Nat
  | .subscribe _ reaction => 1 + weights reaction
  | _ => 1

/-- The number of actions in a list of actions. -/
def weights : List Action → Nat
  | [] => 0
  | a :: rest => a.weight + weights rest

end

/-- Something that a session has still to do. -/
inductive Task where
  | act (action : Action)
  /-- Tell a listener of a width. -/
  | notify (id : Nat) (name : String) (width : Float)
  /-- The listener that was told of a width comes back. -/
  | back
  /-- All listeners have been told of a width. -/
  | finish
deriving Inhabited

namespace Task

/-- The number of actions in a task. -/
def weight : Task → Nat
  | act action => action.weight
  | _ => 0

/-- The number of steps that a task takes besides actions. A listener that is told has to come
back. -/
def steps : Task → Nat
  | act _ => 0
  | notify .. => 2
  | back => 1
  | finish => 1

end Task

/-- A viewport in use. -/
structure Session where
  /-- The viewport, unless it has been done away with. A listener is known by its name. -/
  viewport : Option (Viewport String)
  /-- The numbers of the listeners that are registered under names. -/
  subscriptions : List (String × Nat) := []
  /-- The actions of listeners that have not been told of a width yet. -/
  pending : List (Nat × List Action) := []
  /-- Which listeners were told of which widths, the latest first. -/
  fired : List (String × Float) := []
deriving Inhabited

namespace Session

/-- Drop the subscription of a name. -/
def release (s : Session) (name : String) : Session :=
  match s.subscriptions.lookup name with
  | none => s
  | some id =>
    { s with
      viewport := s.viewport.map (·.unsubscribe id)
      subscriptions := s.subscriptions.filter fun p => p.1 != name }

/-- Register a listener and then drop the earlier one of the same name. -/
def register (s : Session) (name : String) (reaction : List Action) : Session :=
  match s.viewport with
  | none => s
  | some v =>
    let (id, v) := v.subscribe name
    let s := { s with viewport := some v, pending := (id, reaction) :: s.pending }.release name
    { s with subscriptions := s.subscriptions ++ [(name, id)] }

/-- Change the width; the answer is to tell the listeners. -/
def setWidth (s : Session) (width : Float) : List Task × Session :=
  match s.viewport with
  | none => ([], s)
  | some v =>
    let (told, v) := v.resize width
    ((told.map fun (id, name) => .notify id name width) ++ [.finish], { s with viewport := some v })

/-- The pending actions of one listener, and those of the others. -/
def takePending (id : Nat) : List (Nat × List Action) → List Action × List (Nat × List Action)
  | [] => ([], [])
  | p :: rest =>
    if p.1 = id then (p.2, rest)
    else
      let (found, others) := takePending id rest
      (found, p :: others)

/-- Do one task; the answer begins with what the task brings about. -/
def perform (s : Session) : Task → List Task × Session
  | .act (.subscribe name reaction) => ([], s.register name reaction)
  | .act (.unsubscribe name) => ([], s.release name)
  | .act .close => ([], { s with viewport := none })
  | .act (.resize width) => s.setWidth width
  | .notify id name width =>
    let (reaction, others) := takePending id s.pending
    (reaction.map .act ++ [.back],
      { s with pending := others, fired := (name, width) :: s.fired })
  | .back => ([], s)
  | .finish => ([], s)

/-! ### Sessions come to an end

No action is done twice, so there are fewer and fewer of them, counting those of the listeners that
have not been told of a width. In between, a task that is no action only takes its steps. -/

/-- The sum of some numbers, one for each member of a list. -/
def total {α : Type} (f : α → Nat) : List α → Nat
  | [] => 0
  | a :: rest => f a + total f rest

theorem total_append {α : Type} (f : α → Nat) (as bs : List α) :
    total f (as ++ bs) = total f as + total f bs := by
  induction as with
  | nil => exact (Nat.zero_add _).symm
  | cons a rest ih => simp only [List.cons_append, total, ih, Nat.add_assoc]

/-- The number of actions that listeners have still to do. -/
def pendingWeight (pending : List (Nat × List Action)) : Nat := total (weights ·.2) pending

/-- What is left to do: actions, and the steps besides. -/
def left (s : Session) (tasks : List Task) : Nat × Nat :=
  (total Task.weight tasks + pendingWeight s.pending, total Task.steps tasks)

/-- Releasing a subscription leaves the pending actions alone. -/
theorem pending_release (s : Session) (name : String) : (s.release name).pending = s.pending := by
  unfold release
  split <;> rfl

/-- Registering a listener adds at most its own actions to the pending ones. -/
theorem pendingWeight_register_le (s : Session) (name : String) (reaction : List Action) :
    pendingWeight (s.register name reaction).pending
      ≤ weights reaction + pendingWeight s.pending := by
  unfold register
  split
  · omega
  · simp [pending_release, pendingWeight, total]

/-- Changing the width leaves the pending actions alone. -/
theorem pending_setWidth (s : Session) (width : Float) :
    (s.setWidth width).2.pending = s.pending := by
  unfold setWidth
  split <;> rfl

/-- Telling listeners is no action. -/
theorem weight_setWidth (s : Session) (width : Float) :
    total Task.weight (s.setWidth width).1 = 0 := by
  unfold setWidth
  split
  · rfl
  · next v _ =>
    simp only [Viewport.resize]
    induction v.listeners with
    | nil => rfl
    | cons l rest ih => simpa [total, Task.weight] using ih

/-- Taking the actions of a listener out moves them from one side to the other. -/
theorem weights_takePending (id : Nat) (pending : List (Nat × List Action)) :
    weights (takePending id pending).1 + pendingWeight (takePending id pending).2
      = pendingWeight pending := by
  induction pending with
  | nil => rfl
  | cons p rest ih =>
    unfold takePending
    split
    · simp [pendingWeight, total]
    · simp only [pendingWeight, total] at ih ⊢
      omega

/-- The weight of a list of actions is that of the tasks to do them. -/
theorem weight_map_act (actions : List Action) :
    total Task.weight (actions.map .act) = weights actions := by
  induction actions with
  | nil => rfl
  | cons a rest ih => simp [total, Task.weight, weights, ih]

/-- Actions take no steps besides. -/
theorem steps_map_act (actions : List Action) : total Task.steps (actions.map .act) = 0 := by
  induction actions with
  | nil => rfl
  | cons a rest ih => simp [total, Task.steps, ih]

/-- Whenever a task is done, less is left. -/
theorem left_perform (s : Session) (task : Task) (rest : List Task) :
    Prod.Lex (· < ·) (· < ·) ((s.perform task).2.left ((s.perform task).1 ++ rest))
      (s.left (task :: rest)) := by
  simp only [left, total_append, total]
  match task with
  | .act (.subscribe name reaction) =>
    refine Prod.Lex.left _ _ ?_
    have := pendingWeight_register_le s name reaction
    simp only [perform, total, Task.weight, Action.weight]
    omega
  | .act (.unsubscribe name) =>
    refine Prod.Lex.left _ _ ?_
    simp only [perform, pending_release, total, Task.weight, Action.weight]
    omega
  | .act .close =>
    refine Prod.Lex.left _ _ ?_
    simp only [perform, total, Task.weight, Action.weight]
    omega
  | .act (.resize width) =>
    refine Prod.Lex.left _ _ ?_
    simp only [perform, weight_setWidth, pending_setWidth, Task.weight, Action.weight]
    omega
  | .notify id name width =>
    have hweights := weights_takePending id s.pending
    have hweight := weight_map_act (takePending id s.pending).1
    have hsteps := steps_map_act (takePending id s.pending).1
    refine Prod.Lex.right' _ ?_ ?_
    · simp only [perform, total_append, total, Task.weight]
      omega
    · simp only [perform, total_append, total, Task.steps]
      omega
  | .back | .finish =>
    refine Prod.Lex.right' _ ?_ ?_
    · simp only [perform, total, Task.weight]
      omega
    · simp only [perform, total, Task.steps]
      omega

/-- Do the tasks in order. What a task brings about is done before the task after it. -/
def run (s : Session) : List Task → Session
  | [] => s
  | task :: rest => run (s.perform task).2 ((s.perform task).1 ++ rest)
termination_by tasks => s.left tasks
decreasing_by exact s.left_perform task rest

/-- The session after an action and all that it brings about. -/
def step (s : Session) (action : Action) : Session := s.run [.act action]

/-- Start with a viewport of the given width. -/
def start (width : Float) : Session := { viewport := some { width } }

end Session

end SceneCanvas.Host
