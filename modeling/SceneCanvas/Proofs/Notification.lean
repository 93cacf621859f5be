import SceneCanvas.Proofs.Fairness
import Mathlib.Data.List.Induction

/-!
# Making a change of the width known

A change of the width tells the listeners that are there when it is made, while they come and go.
`Host.listeners_come_and_go` says what can be relied on, whatever the listeners do, and when a
subscription cannot be dropped.

The sessions of `Host.Session` are a case of this. Their tasks stand for moves
(`Host.Session.moves`), and what these moves make of a viewport is what the session says
(`Host.Session.Mirrored`). So that they are possible, the tasks of a session have to be what is left
to do of the changes that are being made known: `Host.Stacked` says so.
-/

namespace SceneCanvas.Host

open Traffic (Orderly)

/-! ### The moves of sessions -/

namespace Session

/-- The move to drop the subscription of a name, if there is one. -/
def releaseMoves (s : Session) (name : String) : List (Move String) :=
  (s.subscriptions.lookup name).toList.map .drop

/-- The moves that a task stands for. -/
def moves (s : Session) : Task → List (Move String)
  | .act (.subscribe name _) =>
    if s.viewport.isSome then .subscribe name :: s.releaseMoves name else []
  | .act (.unsubscribe name) => s.releaseMoves name
  | .act (.resize width) => if s.viewport.isSome then [.resize width] else []
  | .act .close => [.close]
  | .notify .. => [.tell]
  | .back => [.back]
  | .finish => [.finish]

/-- The moves that tasks stand for, with all that they bring about. -/
def movesOf (s : Session) : List Task → List (Move String)
  | [] => []
  | task :: rest => s.moves task ++ movesOf (s.perform task).2 ((s.perform task).1 ++ rest)
termination_by tasks => s.left tasks
decreasing_by exact s.left_perform task rest

/-- The moves that the actions of a user stand for. -/
def history (s : Session) : List Action → List (Move String)
  | [] => []
  | action :: rest => s.movesOf [.act action] ++ (s.step action).history rest

/-- The traffic has come as far as the session. -/
structure Mirrored (s : Session) (t : Traffic String) : Prop where
  viewport_eq : t.inUse = s.viewport
  live_eq : t.live = s.subscriptions.map Prod.snd
  calls_eq : t.calls.map (fun c => (c.listener.2, c.width)) = s.fired.reverse
  names_nodup : (s.subscriptions.map Prod.fst).Nodup
  owned_eq : t.owned = []

/-- A subscription is known by its name as well as by its number. -/
private theorem subscriptions_release {subs : List (String × Nat)} {name : String} {id : Nat}
    (hnames : (subs.map Prod.fst).Nodup) (hids : (subs.map Prod.snd).Nodup)
    (h : (name, id) ∈ subs) :
    (subs.filter fun p => p.1 != name).map Prod.snd = (subs.map Prod.snd).erase id := by
  rw [hids.erase_eq_filter, List.filter_map]
  refine congrArg (List.map Prod.snd) (List.filter_congr fun p hp => ?_)
  rw [Bool.eq_iff_iff, bne_iff_ne, Function.comp, bne_iff_ne]
  refine not_congr ⟨fun hname => ?_, fun hid => ?_⟩
  · exact congrArg Prod.snd (List.inj_on_of_nodup_map hnames hp h hname)
  · exact congrArg Prod.fst (List.inj_on_of_nodup_map hids hp h hid)

theorem mem_of_lookup {subs : List (String × Nat)} {name : String} {id : Nat}
    (h : subs.lookup name = some id) : (name, id) ∈ subs := by
  obtain ⟨l₁, l₂, rfl, -⟩ := List.lookup_eq_some_iff.mp h
  simp

namespace Mirrored

variable {s : Session} {t : Traffic String} (h : s.Mirrored t)

include h

theorem ids_nodup (ho : t.Orderly) : (s.subscriptions.map Prod.snd).Nodup :=
  h.live_eq ▸ ho.live_nodup

/-- The viewport that has not been given up loses a listener with the traffic. -/
private theorem inUse_without (id : Nat) :
    (t.without id).inUse = s.viewport.map (·.unsubscribe id) := by
  rw [← h.viewport_eq, Traffic.inUse, Traffic.inUse, Traffic.without]
  split <;> rfl

/-- Dropping the subscription of a name. -/
theorem release (ho : t.Orderly) (name : String) :
    ∃ t', t.run (s.releaseMoves name) = .ok t' ∧ t'.underWay = t.underWay ∧
      (s.release name).Mirrored t' := by
  rw [releaseMoves, Session.release]
  cases hlookup : s.subscriptions.lookup name with
  | none => exact ⟨t, rfl, rfl, h⟩
  | some id =>
    have hmem : (name, id) ∈ s.subscriptions := mem_of_lookup hlookup
    have hlive : id ∈ t.live := h.live_eq ▸ List.mem_map_of_mem hmem
    have hdrop := Traffic.step_drop_eq_ok h.owned_eq hlive
    refine ⟨_, Traffic.run_cons hdrop [], rfl, h.inUse_without id, ?_, h.calls_eq, ?_,
      Traffic.owned_step h.owned_eq hdrop (by simp)⟩
    · change t.live.erase id = _
      rw [h.live_eq, subscriptions_release h.names_nodup (h.ids_nodup ho) hmem]
    · exact h.names_nodup.sublist (List.filter_sublist.map _)

/-- The names that are left after a release, and the name itself, are all different. -/
private theorem nodup_concat_name (name : String) (id : Nat) :
    (((s.subscriptions.filter fun p => p.1 != name) ++ [(name, id)]).map Prod.fst).Nodup := by
  rw [List.map_append, List.map_singleton, ← List.concat_eq_append]
  refine List.Nodup.concat ?_ (h.names_nodup.sublist (List.filter_sublist.map _))
  intro hkept
  obtain ⟨p, hp, hname⟩ := List.mem_map.mp hkept
  exact bne_iff_ne.mp (List.mem_filter.mp hp).2 hname

/-- Registering a listener is to subscribe and then, perhaps, to drop. -/
theorem register (ho : t.Orderly) (name : String) (reaction : List Action) :
    ∃ t', t.run (s.moves (.act (.subscribe name reaction))) = .ok t' ∧
      t'.underWay = t.underWay ∧ (s.register name reaction).Mirrored t' := by
  rw [Session.register]
  cases hviewport : s.viewport with
  | none =>
    rw [Session.moves, hviewport]
    exact ⟨t, rfl, rfl, h⟩
  | some v =>
    have hinUse : t.inUse = some v := h.viewport_eq.trans hviewport
    have hclosed : t.closed = false := (Traffic.inUse_eq_some_iff.mp hinUse).1
    have hnew := (Traffic.step_subscribe_eq_ok_iff name).mpr ⟨v, hinUse, rfl⟩
    have howned := Traffic.owned_step h.owned_eq hnew (by simp)
    have hconcat := h.nodup_concat_name name v.nextId
    rw [Session.moves, hviewport, Option.isSome_some, if_pos rfl, Traffic.run_cons hnew,
      releaseMoves]
    dsimp only [Viewport.subscribe, Session.release]
    cases hlookup : s.subscriptions.lookup name with
    | none =>
      have hothers : (s.subscriptions.filter fun p => p.1 != name) = s.subscriptions :=
        List.filter_eq_self.mpr fun p hp => by
          simpa [bne_comm] using List.lookup_eq_none_iff.mp hlookup p hp
      rw [hothers] at hconcat
      refine ⟨_, rfl, rfl, ?_, ?_, h.calls_eq, hconcat, howned⟩
      · simp [Traffic.inUse, hclosed]
      · simp [h.live_eq]
    | some old =>
      have hmem : (name, old) ∈ s.subscriptions := mem_of_lookup hlookup
      have hlive : old ∈ t.live := h.live_eq ▸ List.mem_map_of_mem hmem
      have hdrop := Traffic.step_drop_eq_ok howned (List.mem_append_left [v.nextId] hlive)
      refine ⟨_, Traffic.run_cons hdrop [], rfl, ?_, ?_, h.calls_eq, hconcat,
        Traffic.owned_step howned hdrop (by simp)⟩
      · simp [Traffic.inUse, Traffic.without, Viewport.subscribe, hclosed]
      · change (t.live ++ [v.nextId]).erase old = _
        rw [List.erase_append_left _ hlive, List.map_append, h.live_eq,
          subscriptions_release h.names_nodup (h.ids_nodup ho) hmem]
        rfl

/-- Nothing but a viewport that nobody uses goes when a change has come to its end. -/
theorem settle : s.Mirrored t.settle := by
  have hspares := Traffic.spares_settle t
  refine ⟨?_, ?_, hspares.calls_eq ▸ h.calls_eq, h.names_nodup, Traffic.owned_settle h.owned_eq⟩
  · rw [← h.viewport_eq, Traffic.settle, Traffic.inUse, Traffic.inUse]
    split
    next hgone => simp [hgone.1]
    next => rfl
  · rw [← h.live_eq, Traffic.settle]
    split
    · refine List.filter_eq_self.mpr fun id _ => decide_eq_true ?_
      exact Traffic.free_of_owned_eq_nil h.owned_eq id
    · rfl

end Mirrored

/-! ### Tasks and changes -/

end Session

/-- The tasks of a session are what is left to do of the changes that are being made known: the
rest of what a listener does that has been called, its coming back, the other listeners of the
change, and its end. -/
inductive Stacked : List Task → List (Notice String) → Prop
  | done : Stacked [] []
  | act {tasks frames} (action : Action) (h : Stacked tasks frames) :
    Stacked (.act action :: tasks) frames
  | notify {tasks change width rest outer} (l : Nat × String)
    (h : Stacked tasks (⟨change, width, none, rest⟩ :: outer)) :
    Stacked (.notify l.1 l.2 width :: tasks) (⟨change, width, none, l :: rest⟩ :: outer)
  | back {tasks change width rest outer} (id : Nat)
    (h : Stacked tasks (⟨change, width, none, rest⟩ :: outer)) :
    Stacked (.back :: tasks) (⟨change, width, some id, rest⟩ :: outer)
  | finish {tasks frames} (change : Nat) (width : Float) (h : Stacked tasks frames) :
    Stacked (.finish :: tasks) (⟨change, width, none, []⟩ :: frames)

namespace Stacked

variable {tasks : List Task} {frames : List (Notice String)} (h : Stacked tasks frames)

include h

theorem acts_append (actions : List Action) : Stacked (actions.map .act ++ tasks) frames := by
  induction actions with
  | nil => exact h
  | cons action rest ih => exact ih.act action

theorem notices_append (change : Nat) (width : Float) (told : List (Nat × String)) :
    Stacked ((told.map fun (id, name) => .notify id name width) ++ .finish :: tasks)
      (⟨change, width, none, told⟩ :: frames) := by
  induction told with
  | nil => exact h.finish change width
  | cons l rest ih => exact ih.notify l

end Stacked

namespace Session

namespace Mirrored

variable {s : Session} {t : Traffic String} (h : s.Mirrored t) (ho : t.Orderly)

include h ho

/-- **One task** is done by its moves. -/
theorem perform {task : Task} {rest : List Task} (hstacked : Stacked (task :: rest) t.underWay) :
    ∃ t', t.run (s.moves task) = .ok t' ∧ (s.perform task).2.Mirrored t' ∧
      Stacked ((s.perform task).1 ++ rest) t'.underWay := by
  generalize hframes : t.underWay = frames at hstacked
  cases hstacked with
  | act action hrest =>
    subst hframes
    match action with
    | .subscribe name reaction =>
      obtain ⟨t', ht', hsame, h'⟩ := h.register ho name reaction
      exact ⟨t', ht', h', hsame ▸ hrest⟩
    | .unsubscribe name =>
      obtain ⟨t', ht', hsame, h'⟩ := h.release ho name
      exact ⟨t', ht', h', hsame ▸ hrest⟩
    | .close =>
      have hclose : t.step .close = .ok (Traffic.settle { t with closed := true }) := rfl
      have hclosed : Mirrored { s with viewport := none } { t with closed := true } :=
        ⟨rfl, h.live_eq, h.calls_eq, h.names_nodup, h.owned_eq⟩
      refine ⟨_, Traffic.run_cons hclose [], hclosed.settle, ?_⟩
      rw [(Traffic.spares_settle { t with closed := true }).underWay_eq]
      exact hrest
    | .resize width =>
      dsimp only [Session.moves, Session.perform, setWidth]
      cases hviewport : s.viewport with
      | none => exact ⟨t, rfl, h, hrest⟩
      | some v =>
        have hinUse : t.inUse = some v := h.viewport_eq.trans hviewport
        have hclosed : t.closed = false := (Traffic.inUse_eq_some_iff.mp hinUse).1
        have hresize := (Traffic.step_resize_eq_ok_iff width).mpr ⟨v, hinUse, rfl⟩
        refine ⟨_, Traffic.run_cons hresize [],
          ⟨?_, h.live_eq, h.calls_eq, h.names_nodup, h.owned_eq⟩, ?_⟩
        · simp [Traffic.inUse, Viewport.resize, hclosed]
        · rw [List.append_assoc]
          exact hrest.notices_append t.changes width v.listeners
  | notify l hrest =>
    have htell := Traffic.step_tell_eq_ok_iff.mpr ⟨_, _, l, _, _, hframes, rfl⟩
    refine ⟨_, Traffic.run_cons htell [],
      ⟨h.viewport_eq, h.live_eq, ?_, h.names_nodup, h.owned_eq⟩, ?_⟩
    · rw [Session.perform, List.map_append, h.calls_eq, List.reverse_cons]
      rfl
    · rw [Session.perform, List.append_assoc]
      exact (hrest.back l.1).acts_append _
  | back id hrest =>
    have hback := Traffic.step_back_eq_ok h.owned_eq hframes
    exact ⟨_, Traffic.run_cons hback [],
      ⟨h.viewport_eq, h.live_eq, h.calls_eq, h.names_nodup, h.owned_eq⟩, hrest⟩
  | @finish _ outer change width hrest =>
    have hfinish := Traffic.step_finish_eq_ok_iff.mpr ⟨change, width, outer, hframes, rfl⟩
    have hleft : s.Mirrored { t with underWay := outer } :=
      ⟨h.viewport_eq, h.live_eq, h.calls_eq, h.names_nodup, h.owned_eq⟩
    refine ⟨_, Traffic.run_cons hfinish [], hleft.settle, ?_⟩
    rw [(Traffic.spares_settle { t with underWay := outer }).underWay_eq]
    exact hrest

/-- **Any tasks** are done by their moves, and in the end every change has called its listeners. -/
theorem run {tasks : List Task} (hstacked : Stacked tasks t.underWay) :
    ∃ t', t.run (s.movesOf tasks) = .ok t' ∧ t'.underWay = [] ∧ (s.run tasks).Mirrored t' := by
  induction s, tasks using Session.run.induct generalizing t with
  | case1 s =>
    rw [movesOf, Session.run]
    cases hframes : t.underWay with
    | nil => exact ⟨t, rfl, hframes, h⟩
    | cons n outer =>
      rw [hframes] at hstacked
      cases hstacked
  | case2 s task rest ih =>
    obtain ⟨t', hmoves, h', hstacked'⟩ := h.perform ho hstacked
    obtain ⟨u, hu, hend⟩ := ih h' (ho.run hmoves) hstacked'
    rw [movesOf, Session.run, Traffic.run_append hmoves]
    exact ⟨u, hu, hend⟩

/-- **Any actions** of a user are done by their moves. -/
theorem history (hidle : t.underWay = []) (actions : List Action) :
    ∃ t', t.run (s.history actions) = .ok t' ∧ t'.underWay = [] ∧
      (actions.foldl step s).Mirrored t' := by
  induction actions generalizing s t with
  | nil => exact ⟨t, rfl, hidle, h⟩
  | cons action rest ih =>
    obtain ⟨t', hmoves, hidle', h'⟩ := h.run ho (hidle ▸ Stacked.done.act action)
    rw [Session.history, Traffic.run_append hmoves]
    exact ih h' (ho.run hmoves) hidle'

end Mirrored

end Session

/-- **Listeners come and go.** Whatever has been done to a viewport, by its user and by listeners
while they are told of a width:

* The listeners are those of the live subscriptions, in the order they were made. They have
  different numbers, below that of the next listener.
* Dropping a subscription takes out its own listener, at once, and keeps the others as they are; if
  the viewport has gone, there is nothing to take out. The exception is a listener that owns
  subscriptions: if the drop destroys it, the drop never comes to its end.
* A change stores the width. Whatever happens then, it calls the listeners that it found, each once,
  in order, and no others: what it has called so far is the beginning of their list, and it is all
  of them when the change is over.
* A listener that subscribes is found by a change as long as its subscription lives; the changes
  that are being made known do not call it.

If no subscription is ever given to a listener, nothing is stuck. Sessions are of this kind: the
moves that their actions stand for are possible, every change comes to its end, and what the moves
make of the viewport, the subscriptions and the calls is what the session says. -/
theorem listeners_come_and_go (width : Float) :
    (∀ (κ : Type) (s : Traffic κ), (Traffic.start width).Leads s → s.Fair) ∧
    (∀ (κ : Type) (moves : List (Move κ)), (∀ id owner, .give id owner ∉ moves) →
      (Traffic.start width).run moves ≠ .error .stuck) ∧
    ∀ actions : List Action, ∃ t,
      (Traffic.start width).run ((Session.start width).history actions) = .ok t ∧
      t.underWay = [] ∧ (actions.foldl Session.step (Session.start width)).Mirrored t := by
  refine ⟨fun κ s hs => ?_, fun κ moves hmoves => ?_, fun actions => ?_⟩
  · have h : s.Orderly := hs.orderly (.start width)
    exact h.fair
  · exact Traffic.run_ne_stuck rfl hmoves
  · have hstart : (Session.start width).Mirrored (Traffic.start width) := ⟨rfl, rfl, rfl, .nil, rfl⟩
    exact hstart.history (.start width) rfl actions

/-- The first of two listeners subscribes a third and drops the second. Both are called. Later the
third is given the subscription of the first, so that its own cannot be dropped. A session does what
the first of its listeners does when it is told of a width. -/
theorem listeners_come_and_go_guests :
    let s : Traffic String :=
      { viewport := some ⟨5.0, 2, [(0, "hall"), (1, "stair")]⟩
        live := [0, 1]
        joined := [("hall", 0), ("stair", 0)] }
    let u : Traffic String :=
      { viewport := some ⟨9.0, 3, [(0, "hall"), (2, "attic")]⟩
        live := [0, 2]
        joined := [("hall", 0), ("stair", 0), ("attic", 1)]
        changes := 1
        calls := [⟨0, (0, "hall"), 9.0⟩, ⟨0, (1, "stair"), 9.0⟩] }
    (Traffic.start 5.0).run [.subscribe "hall", .subscribe "stair"] = .ok s ∧
    (∃ t, s.step (.resize 9.0) = .ok t ∧
      t.run [.tell, .subscribe "attic", .drop 1, .back, .tell, .back, .finish] = .ok u ∧
      u.callsOf 0 = [⟨0, (0, "hall"), 9.0⟩, ⟨0, (1, "stair"), 9.0⟩]) ∧
    (∃ t, u.step (.drop 0) = .ok t ∧ t.live = [2]) ∧
    (∃ t, u.step (.subscribe "cellar") = .ok t ∧ t.live = [0, 2, 3]) ∧
    (∃ t, u.step (.give 0 2) = .ok t ∧ t.step (.drop 2) = .error .stuck) ∧
    (Traffic.start 5.0 : Traffic String).run [.subscribe "hall", .resize 9.0, .tell, .drop 0]
      ≠ .error .stuck ∧
    ∃ t, (Traffic.start 5.0).run [.subscribe "hall", .resize 9.0, .tell, .subscribe "stair",
        .drop 0, .back, .finish] = .ok t ∧
      t.live = [1] ∧ t.calls.map (fun c => (c.listener.2, c.width)) = [("hall", 9.0)] := by
  intro s u
  have hs : (Traffic.start 5.0).Leads s := ⟨[.subscribe "hall", .subscribe "stair"], rfl⟩
  obtain ⟨t, ht, -, -, hcalls⟩ := ((listeners_come_and_go 5.0).1 String s hs).resize _ rfl 9.0
  have htu : t.run [.tell, .subscribe "attic", .drop 1, .back, .tell, .back, .finish] = .ok u := by
    cases ht
    rfl
  have hu : (Traffic.start 5.0).Leads u := (hs.trans (.single _ ht)).trans ⟨_, htu⟩
  have hfair := (listeners_come_and_go 5.0).1 String u hu
  refine ⟨rfl, ⟨t, ht, htu, (hcalls u ⟨_, htu⟩).2 nofun⟩, ?_, ?_, ?_, ?_, ?_⟩
  · obtain ⟨t', ht', hlive, -⟩ := hfair.drop 0 (by decide) (by decide) (by decide)
    exact ⟨t', ht', hlive⟩
  · obtain ⟨t', ht', hlive, -⟩ := hfair.subscribe _ rfl "cellar"
    exact ⟨t', ht', hlive⟩
  · have hgive : u.step (.give 0 2) = .ok { u with owned := [(0, 2)] } := rfl
    have hnested := (listeners_come_and_go 5.0).1 String _ (hu.trans (.single _ hgive))
    exact ⟨_, hgive, (hnested.drop_stuck_iff 2 (by decide) (by decide)).mpr (by decide)⟩
  · exact (listeners_come_and_go 5.0).2.1 String _ (by simp)
  · let actions : List Action :=
      [.subscribe "hall" [.subscribe "stair" [], .unsubscribe "hall"], .resize 9.0]
    have hhistory : (Session.start 5.0).history actions =
        [.subscribe "hall", .resize 9.0, .tell, .subscribe "stair", .drop 0, .back, .finish] := by
      simp [actions, Session.history, Session.movesOf, Session.moves, Session.step, Session.run,
        Session.perform, Session.start, Session.register, Session.release, Session.setWidth,
        Session.releaseMoves, Session.takePending, Viewport.subscribe, Viewport.resize,
        Viewport.unsubscribe, List.lookup_cons]
    have hend : actions.foldl Session.step (Session.start 5.0) =
        { viewport := some ⟨9.0, 2, [(1, "stair")]⟩
          subscriptions := [("stair", 1)]
          pending := [(1, [])]
          fired := [("hall", 9.0)] } := by
      simp [actions, Session.step, Session.run, Session.perform, Session.start, Session.register,
        Session.release, Session.setWidth, Session.takePending, Viewport.subscribe,
        Viewport.resize, Viewport.unsubscribe, List.lookup_cons]
    obtain ⟨t, ht, -, h⟩ := (listeners_come_and_go 5.0).2.2 actions
    rw [hhistory] at ht
    rw [hend] at h
    exact ⟨t, ht, h.live_eq, h.calls_eq⟩

/-- **A drop may never come to its end**, because a listener owns the subscription of another one of
the same viewport. -/
theorem drop_of_nested_subscription :
    ¬ ∀ s : Traffic String, (Traffic.start 5.0).Leads s → ∀ id ∈ s.live, s.Free id →
      ∃ t, s.step (.drop id) = .ok t ∧ t.live = s.live.erase id := by
  intro h
  let s : Traffic String :=
    { viewport := some ⟨5.0, 2, [(0, "inner"), (1, "outer")]⟩
      live := [0, 1]
      owned := [(0, 1)]
      joined := [("inner", 0), ("outer", 0)] }
  have hs : (Traffic.start 5.0).Leads s :=
    ⟨[.subscribe "inner", .subscribe "outer", .give 0 1], rfl⟩
  obtain ⟨t, ht, -⟩ := h s hs 1 (by decide) (by decide)
  cases ht

end SceneCanvas.Host
