import SceneCanvas.Host.Viewport

/-!
# The traffic around a viewport

A listener that is told of a width may do as it likes: subscribe others, drop subscriptions, its own
among them, and change the width once more. So the listeners of a viewport come and go while a
change is being made known, and changes nest.

`Traffic` is a viewport in such use. It says of whom a change has still to be told, and keeps a
record of the calls; which listener does what is left open, so that the runs of `Traffic.step` are
all that can happen.

A subscription may be given to a listener of the same viewport, which owns it from then on and drops
it when it is destroyed itself. A listener that has been taken out is destroyed at once, unless a
change is about to call it or is calling it; then the change that is the last to let go of it does
so. The two are not alike. To drop a subscription is to take its listener out under the lock of the viewport, and
what is destroyed at once is destroyed under this lock, so that a subscription that it owns waits
for the lock in vain (`Traffic.Jams`). Changes let go of listeners without the lock.
-/

namespace SceneCanvas.Host

/-- A call of a listener because of a change, each with its number. -/
structure Call (κ : Type) where
  change : Nat
  listener : Nat × κ
  width : Float

/-- A change that is being made known. -/
structure Notice (κ : Type) where
  change : Nat
  width : Float
  /-- The number of the listener that is being called. -/
  current : Option Nat
  /-- The listeners that have not been called yet. -/
  rest : List (Nat × κ)

namespace Notice

variable {κ : Type}

/-- The calls that have still to be made. -/
def due (n : Notice κ) : List (Call κ) := n.rest.map fun l => ⟨n.change, l, n.width⟩

/-- The change calls the listener, or is about to. -/
def holds (n : Notice κ) (id : Nat) : Bool := n.current == some id || n.rest.any (·.1 == id)

end Notice

/-- A viewport in use. -/
structure Traffic (κ : Type) where
  /-- The viewport, as long as it is there. -/
  viewport : Option (Viewport κ)
  /-- The viewport has been given up. It is there until the changes that are being made known have
  come to their end. -/
  closed : Bool := false
  /-- The numbers of the subscriptions that have not been dropped, in the order they were made. -/
  live : List Nat := []
  /-- The subscriptions that listeners own, and the numbers of their owners. -/
  owned : List (Nat × Nat) := []
  /-- All listeners that have ever subscribed, by number, and how many changes there had been. -/
  joined : List (κ × Nat) := []
  /-- How many changes there have been. -/
  changes : Nat := 0
  /-- The changes that are being made known, the innermost first. -/
  underWay : List (Notice κ) := []
  /-- All calls so far. -/
  calls : List (Call κ) := []

/-- What can happen to a viewport. -/
inductive Move (κ : Type) where
  | subscribe (listener : κ)
  /-- A subscription is given to a listener. -/
  | give (id owner : Nat)
  /-- A subscription is taken from the listener that owns it. -/
  | take (id : Nat)
  /-- A subscription that no listener owns is dropped. -/
  | drop (id : Nat)
  | resize (width : Float)
  /-- The innermost change calls its next listener. -/
  | tell
  /-- The listener that the innermost change has called comes back. -/
  | back
  /-- The innermost change has called all listeners it found. -/
  | finish
  /-- The viewport is given up. -/
  | close

/-- Why a move has no result. -/
inductive Halt where
  /-- There is no such move here. -/
  | impossible
  /-- It waits for a lock that is not released before it has come to its end. -/
  | stuck
deriving DecidableEq

namespace Traffic

variable {κ : Type}

/-- Start with a viewport of the given width. -/
def start (width : Float) : Traffic κ := { viewport := some { width } }

/-- The viewport, if it has not been given up. -/
def inUse (s : Traffic κ) : Option (Viewport κ) := if s.closed then none else s.viewport

/-- No listener owns the subscription. -/
def Free (s : Traffic κ) (id : Nat) : Prop := ∀ p ∈ s.owned, p.1 ≠ id

instance (s : Traffic κ) (id : Nat) : Decidable (s.Free id) :=
  inferInstanceAs (Decidable (∀ p ∈ s.owned, p.1 ≠ id))

/-- The subscriptions that a listener owns. -/
def possessions (s : Traffic κ) (owner : Nat) : List Nat :=
  (s.owned.filter (·.2 == owner)).map Prod.fst

/-- A change that is being made known calls the listener, or is about to. -/
def Held (s : Traffic κ) (id : Nat) : Prop := ∃ n ∈ s.underWay, n.holds id

instance (s : Traffic κ) (id : Nat) : Decidable (s.Held id) :=
  inferInstanceAs (Decidable (∃ n ∈ s.underWay, n.holds id))

/-- The listener has not been destroyed. -/
def Present (s : Traffic κ) (id : Nat) : Prop :=
  (∃ v ∈ s.viewport, ∃ l ∈ v.listeners, l.1 = id) ∨ s.Held id

instance (s : Traffic κ) (id : Nat) : Decidable (s.Present id) :=
  inferInstanceAs (Decidable ((∃ v ∈ s.viewport, ∃ l ∈ v.listeners, l.1 = id) ∨ s.Held id))

/-- To drop the subscription would destroy its listener under the lock of the viewport, and this
listener owns subscriptions, so that the lock would be waited for. -/
def Jams (s : Traffic κ) (id : Nat) : Prop :=
  s.viewport.isSome ∧ ¬ s.Held id ∧ s.possessions id ≠ []

instance (s : Traffic κ) (id : Nat) : Decidable (s.Jams id) :=
  inferInstanceAs (Decidable (_ ∧ _ ∧ _))

/-- The traffic without a subscription and its listener. -/
def without (s : Traffic κ) (id : Nat) : Traffic κ :=
  { s with
    viewport := s.viewport.map (·.unsubscribe id)
    live := s.live.erase id
    owned := s.owned.filter (·.1 != id) }

/-- Drop a subscription. -/
def discard (s : Traffic κ) (id : Nat) : Except Halt (Traffic κ) :=
  if s.Jams id then .error .stuck else .ok (s.without id)

/-- The subscriptions that are dropped when a change lets go of a listener: those that it owns, if
it is destroyed because it has been taken out and no other change holds on to it. -/
def estate (s : Traffic κ) (id : Nat) : List Nat :=
  if s.Present id then [] else s.possessions id

/-- A change lets go of a listener. No lock is held meanwhile. -/
def letGo (s : Traffic κ) (id : Nat) : Except Halt (Traffic κ) := (s.estate id).foldlM discard s

/-- What becomes of the viewport: once it has been given up and no change is being made known, it
is gone. Its listeners go with it, and what they own is dropped without it. -/
def settle (s : Traffic κ) : Traffic κ :=
  if s.closed ∧ s.underWay.isEmpty then
    { s with viewport := none, live := s.live.filter fun id => decide (s.Free id), owned := [] }
  else s

/-- One move. -/
def step (s : Traffic κ) : Move κ → Except Halt (Traffic κ)
  | .subscribe listener =>
    match s.inUse with
    | none => .error .impossible
    | some v =>
      let (id, v) := v.subscribe listener
      .ok { s with
        viewport := some v
        live := s.live ++ [id]
        joined := s.joined ++ [(listener, s.changes)] }
  | .give id owner =>
    if id ∈ s.live ∧ s.Free id ∧ s.Present owner then
      .ok { s with owned := s.owned ++ [(id, owner)] }
    else .error .impossible
  | .take id =>
    if s.Free id then .error .impossible
    else .ok { s with owned := s.owned.filter (·.1 != id) }
  | .drop id => if id ∈ s.live ∧ s.Free id then s.discard id else .error .impossible
  | .resize width =>
    match s.inUse with
    | none => .error .impossible
    | some v =>
      let (told, v) := v.resize width
      .ok { s with
        viewport := some v
        changes := s.changes + 1
        underWay := ⟨s.changes, width, none, told⟩ :: s.underWay }
  | .tell =>
    match s.underWay with
    | ⟨change, width, none, listener :: rest⟩ :: outer =>
      .ok { s with
        underWay := ⟨change, width, some listener.1, rest⟩ :: outer
        calls := s.calls ++ [⟨change, listener, width⟩] }
    | _ => .error .impossible
  | .back =>
    match s.underWay with
    | ⟨change, width, some id, rest⟩ :: outer =>
      letGo { s with underWay := ⟨change, width, none, rest⟩ :: outer } id
    | _ => .error .impossible
  | .finish =>
    match s.underWay with
    | ⟨_, _, none, []⟩ :: outer => .ok (settle { s with underWay := outer })
    | _ => .error .impossible
  | .close => .ok (settle { s with closed := true })

/-- The moves in order. -/
def run (s : Traffic κ) (moves : List (Move κ)) : Except Halt (Traffic κ) := moves.foldlM step s

end Traffic

end SceneCanvas.Host
