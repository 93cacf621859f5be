import SceneCanvas.Host.Traffic
import SceneCanvas.Proofs.Listeners
import Mathlib.Data.List.Infix

/-!
# Listeners that come and go

What can be said of `Host.Traffic`, whatever is done to a viewport.

* `Host.Traffic.Orderly` holds throughout. The listeners are those of the live subscriptions, in
  the order in which their numbers were given out, and nobody is told of a change that has not
  subscribed before it.
* `Host.Traffic.Telling` is what a change promises: its calls so far, and then those that are due,
  are those of the listeners it found.

Each is kept by one move, and so by all. What has to be known of a move for this is one lemma for
each kind of move. Subscriptions are dropped one after another, which is stuck or takes them all out
(`Host.Traffic.foldlM_discard`).
-/

namespace SceneCanvas.Host.Traffic

variable {κ : Type} {s t : Traffic κ}

/-- The calls because of a change. -/
def callsOf (s : Traffic κ) (change : Nat) : List (Call κ) :=
  s.calls.filter (·.change == change)

/-- The calls that a change has still to make. -/
def dueOf (s : Traffic κ) (change : Nat) : List (Call κ) :=
  s.underWay.flatMap fun n => if n.change = change then n.due else []

/-- The listener subscribed before the change. -/
def Knows (s : Traffic κ) (change : Nat) (l : Nat × κ) : Prop :=
  ∃ k ≤ change, s.joined[l.1]? = some (l.2, k)

/-- The change is not being made known. -/
def Over (s : Traffic κ) (change : Nat) : Prop := ∀ n ∈ s.underWay, n.change ≠ change

theorem Over.dueOf_eq_nil {change : Nat} (h : s.Over change) : s.dueOf change = [] :=
  List.flatMap_eq_nil_iff.mpr fun n hn => if_neg (h n hn)

theorem inUse_eq_some_iff {v : Viewport κ} :
    s.inUse = some v ↔ s.closed = false ∧ s.viewport = some v := by
  rw [inUse, Option.ite_none_left_eq_some, Bool.not_eq_true]

/-! ### Dropping subscriptions -/

/-- Between the two only subscriptions, and perhaps the viewport, have gone. -/
structure Spares (s t : Traffic κ) : Prop where
  joined_eq : t.joined = s.joined
  changes_eq : t.changes = s.changes
  underWay_eq : t.underWay = s.underWay
  calls_eq : t.calls = s.calls

theorem spares_foldl_without (s : Traffic κ) (ids : List Nat) :
    s.Spares (ids.foldl without s) := by
  induction ids generalizing s with
  | nil => exact ⟨rfl, rfl, rfl, rfl⟩
  | cons id rest ih =>
    obtain ⟨hjoined, hchanges, hunderWay, hcalls⟩ := ih (s.without id)
    exact ⟨hjoined, hchanges, hunderWay, hcalls⟩

theorem spares_settle (s : Traffic κ) : s.Spares s.settle := by
  rw [settle]
  split <;> exact ⟨rfl, rfl, rfl, rfl⟩

theorem discard_eq_stuck_iff {id : Nat} : s.discard id = .error .stuck ↔ s.Jams id := by
  rw [discard]
  split
  next h => exact iff_of_true rfl h
  next h => exact iff_of_false nofun h

theorem discard_eq_ok_iff {id : Nat} : s.discard id = .ok t ↔ ¬ s.Jams id ∧ t = s.without id := by
  rw [discard]
  split
  next h => exact iff_of_false nofun fun ht => ht.1 h
  next h =>
    rw [Except.ok.injEq, eq_comm]
    exact (and_iff_right h).symm

/-- Dropping subscriptions is stuck, or they are gone. -/
theorem foldlM_discard (s : Traffic κ) (ids : List Nat) :
    ids.foldlM discard s = .error .stuck ∨ ids.foldlM discard s = .ok (ids.foldl without s) := by
  induction ids generalizing s with
  | nil => exact .inr rfl
  | cons id rest ih =>
    rw [List.foldlM_cons, List.foldl_cons]
    by_cases h : s.Jams id
    · rw [discard_eq_stuck_iff.mpr h]
      exact .inl rfl
    · rw [discard_eq_ok_iff.mpr ⟨h, rfl⟩]
      exact ih _

theorem foldlM_discard_eq_ok {ids : List Nat} (h : ids.foldlM discard s = .ok t) :
    t = ids.foldl without s := by
  rcases foldlM_discard s ids with hstuck | hok
  · exact absurd (h.symm.trans hstuck) nofun
  · exact Except.ok.inj (h.symm.trans hok)

/-- What others own does not change when a subscription is dropped. -/
theorem jams_without_iff {id other owner : Nat} (howner : ∀ p ∈ s.owned, p.1 = id → p.2 = owner)
    (hne : s.viewport.isSome → other ≠ owner) : (s.without id).Jams other ↔ s.Jams other := by
  have hkept (hother : other ≠ owner) : (s.without id).possessions other = s.possessions other := by
    change List.map _ (List.filter _ (List.filter _ s.owned)) = _
    rw [List.filter_filter, possessions]
    refine congrArg (List.map Prod.fst) (List.filter_congr fun p hp => ?_)
    rw [Bool.and_eq_left_iff_imp, beq_iff_eq, bne_iff_ne]
    exact fun heq hid => hother (heq.symm.trans (howner p hp hid))
  rw [Jams, Jams, without, Option.isSome_map]
  refine and_congr_right fun hsome => and_congr_right fun _ => ?_
  rw [← hkept (hne hsome), without]

/-- The subscriptions of one owner are dropped without any of these getting stuck, or not at all. -/
theorem foldlM_discard_eq_stuck_iff {ids : List Nat} (owner : Nat)
    (howner : ∀ id ∈ ids, ∀ p ∈ s.owned, p.1 = id → p.2 = owner)
    (hne : s.viewport.isSome → ∀ id ∈ ids, id ≠ owner) :
    ids.foldlM discard s = .error .stuck ↔ ∃ id ∈ ids, s.Jams id := by
  induction ids generalizing s with
  | nil => exact iff_of_false nofun (by simp)
  | cons id rest ih =>
    obtain ⟨howner_id, howner_rest⟩ := List.forall_mem_cons.mp howner
    rw [List.foldlM_cons, List.exists_mem_cons_iff]
    by_cases h : s.Jams id
    · rw [discard_eq_stuck_iff.mpr h]
      exact iff_of_true rfl (.inl h)
    · rw [discard_eq_ok_iff.mpr ⟨h, rfl⟩, or_iff_right h]
      refine (ih (s := s.without id) ?_ ?_).trans ?_
      · intro other hother p hp
        exact howner_rest other hother p (List.mem_of_mem_filter hp)
      · rw [without, Option.isSome_map]
        exact fun hsome other hother => hne hsome other (List.mem_cons_of_mem _ hother)
      · refine exists_congr fun other => and_congr_right fun hother => ?_
        refine jams_without_iff howner_id fun hsome => ?_
        exact hne hsome other (List.mem_cons_of_mem _ hother)

theorem live_foldl_without (s : Traffic κ) (ids : List Nat) (h : s.live.Nodup) :
    (ids.foldl without s).live = s.live.filter fun id => decide (id ∉ ids) := by
  induction ids generalizing s with
  | nil => simp
  | cons id rest ih =>
    rw [List.foldl_cons, ih _ (h.erase id)]
    change List.filter _ (s.live.erase id) = _
    rw [h.erase_eq_filter, List.filter_filter]
    refine List.filter_congr fun other _ => ?_
    rw [Bool.eq_iff_iff]
    simp [and_comm]

/-! ### Moves -/

theorem step_subscribe_eq_ok_iff (listener : κ) :
    s.step (.subscribe listener) = .ok t ↔ ∃ v, s.inUse = some v ∧
      t = { s with
        viewport := some (v.subscribe listener).2
        live := s.live ++ [v.nextId]
        joined := s.joined ++ [(listener, s.changes)] } := by
  cases hs : s.inUse with
  | none =>
    simp only [step, hs]
    exact iff_of_false nofun (by simp)
  | some v =>
    simp only [step, hs, Viewport.subscribe, Except.ok.injEq, Option.some.injEq, exists_eq_left']
    exact eq_comm

theorem step_give_eq_ok_iff {id owner : Nat} :
    s.step (.give id owner) = .ok t ↔ (id ∈ s.live ∧ s.Free id ∧ s.Present owner) ∧
      t = { s with owned := s.owned ++ [(id, owner)] } := by
  rw [step]
  split
  next h =>
    rw [Except.ok.injEq, and_iff_right h]
    exact eq_comm
  next h => exact iff_of_false nofun fun ht => h ht.1

theorem step_take_eq_ok_iff {id : Nat} :
    s.step (.take id) = .ok t ↔ ¬ s.Free id ∧
      t = { s with owned := s.owned.filter (·.1 != id) } := by
  rw [step]
  split
  next h => exact iff_of_false nofun fun ht => ht.1 h
  next h =>
    rw [Except.ok.injEq, and_iff_right h]
    exact eq_comm

theorem step_drop {id : Nat} (hlive : id ∈ s.live) (hfree : s.Free id) :
    s.step (.drop id) = s.discard id := if_pos ⟨hlive, hfree⟩

theorem step_drop_eq_ok_iff {id : Nat} :
    s.step (.drop id) = .ok t ↔ (id ∈ s.live ∧ s.Free id) ∧ ¬ s.Jams id ∧ t = s.without id := by
  rw [step]
  split
  next h => rw [discard_eq_ok_iff, and_iff_right h]
  next h => exact iff_of_false nofun fun ht => h ht.1

theorem step_resize_eq_ok_iff (width : Float) :
    s.step (.resize width) = .ok t ↔ ∃ v, s.inUse = some v ∧
      t = { s with
        viewport := some { v with width }
        changes := s.changes + 1
        underWay := ⟨s.changes, width, none, v.listeners⟩ :: s.underWay } := by
  cases hs : s.inUse with
  | none =>
    simp only [step, hs]
    exact iff_of_false nofun (by simp)
  | some v =>
    simp only [step, hs, Viewport.resize, Except.ok.injEq, Option.some.injEq, exists_eq_left']
    exact eq_comm

theorem step_tell_eq_ok_iff :
    s.step .tell = .ok t ↔ ∃ change width listener rest outer,
      s.underWay = ⟨change, width, none, listener :: rest⟩ :: outer ∧
      t = { s with
        underWay := ⟨change, width, some listener.1, rest⟩ :: outer
        calls := s.calls ++ [⟨change, listener, width⟩] } := by
  constructor
  · intro h
    rw [step] at h
    split at h
    next hs => exact ⟨_, _, _, _, _, hs, (Except.ok.inj h).symm⟩
    next => cases h
  · rintro ⟨change, width, listener, rest, outer, hs, rfl⟩
    rw [step, hs]

theorem step_back {change : Nat} {width : Float} {id : Nat} {rest : List (Nat × κ)}
    {outer : List (Notice κ)} (hs : s.underWay = ⟨change, width, some id, rest⟩ :: outer) :
    s.step .back = letGo { s with underWay := ⟨change, width, none, rest⟩ :: outer } id := by
  rw [step, hs]

theorem exists_of_step_back (h : s.step .back = .ok t) :
    ∃ change width id rest outer, s.underWay = ⟨change, width, some id, rest⟩ :: outer ∧
      ∃ ids : List Nat,
        t = ids.foldl without { s with underWay := ⟨change, width, none, rest⟩ :: outer } := by
  rw [step] at h
  split at h
  next hs => exact ⟨_, _, _, _, _, hs, _, foldlM_discard_eq_ok h⟩
  next => cases h

theorem step_finish_eq_ok_iff :
    s.step .finish = .ok t ↔ ∃ change width outer,
      s.underWay = ⟨change, width, none, []⟩ :: outer ∧
      t = settle { s with underWay := outer } := by
  constructor
  · intro h
    rw [step] at h
    split at h
    next hs => exact ⟨_, _, _, hs, (Except.ok.inj h).symm⟩
    next => cases h
  · rintro ⟨change, width, outer, hs, rfl⟩
    rw [step, hs]

theorem step_close_eq_ok_iff :
    s.step .close = .ok t ↔ t = settle { s with closed := true } := by
  rw [step, Except.ok.injEq]
  exact eq_comm

/-- What every move keeps holds after any moves. -/
theorem run_induction {P : Traffic κ → Prop}
    (hstep : ∀ {s t : Traffic κ} (move : Move κ), P s → s.step move = .ok t → P t)
    {moves : List (Move κ)} (hs : P s) (h : s.run moves = .ok t) : P t := by
  induction moves generalizing s with
  | nil => exact Except.ok.inj h ▸ hs
  | cons move rest ih =>
    rw [run, List.foldlM_cons] at h
    cases hmove : s.step move with
    | error e =>
      rw [hmove] at h
      cases h
    | ok s' =>
      rw [hmove] at h
      exact ih (hstep move hs hmove) h

theorem run_append {moves rest : List (Move κ)} (h : s.run moves = .ok t) :
    s.run (moves ++ rest) = t.run rest := by
  rw [run, List.foldlM_append]
  exact congrArg (· >>= fun s => List.foldlM step s rest) h

theorem run_cons {move : Move κ} (h : s.step move = .ok t) (rest : List (Move κ)) :
    s.run (move :: rest) = t.run rest := by
  rw [run, List.foldlM_cons, h]
  rfl

/-! ### Subscriptions -/

theorem Knows.mono {change change' : Nat} {l : Nat × κ} (h : s.Knows change l)
    (hjoined : s.joined <+: t.joined) (hchange : change ≤ change') : t.Knows change' l := by
  obtain ⟨k, hk, hl⟩ := h
  obtain ⟨more, hmore⟩ := hjoined
  refine ⟨k, Nat.le_trans hk hchange, ?_⟩
  rw [← hmore, List.getElem?_append_left (List.getElem?_eq_some_iff.mp hl).1, hl]

/-- What holds throughout. -/
structure Orderly (s : Traffic κ) : Prop where
  nextId_eq : ∀ v, s.viewport = some v → v.nextId = s.joined.length
  /-- The listeners are those of the live subscriptions. -/
  ids_eq : ∀ v, s.viewport = some v → v.listeners.map Prod.fst = s.live
  /-- Numbers are given out in ascending order, and never twice. -/
  live_ascending : s.live.Pairwise (· < ·)
  /-- What is owned is live, and has one owner. -/
  owned_live : ∀ p ∈ s.owned, p.1 ∈ s.live
  owned_nodup : (s.owned.map Prod.fst).Nodup
  /-- Nobody is there, to be called or has been called without having subscribed. -/
  listener_known : ∀ v, s.viewport = some v → ∀ l ∈ v.listeners, s.Knows s.changes l
  notice_lt : ∀ n ∈ s.underWay, n.change < s.changes
  notice_known : ∀ n ∈ s.underWay, ∀ l ∈ n.rest, s.Knows n.change l
  call_lt : ∀ c ∈ s.calls, c.change < s.changes
  call_known : ∀ c ∈ s.calls, s.Knows c.change c.listener

namespace Orderly

theorem start (width : Float) : (start width : Traffic κ).Orderly where
  nextId_eq v hv := by cases hv; rfl
  ids_eq v hv := by cases hv; rfl
  live_ascending := .nil
  owned_live := nofun
  owned_nodup := .nil
  listener_known v hv := by cases hv; exact nofun
  notice_lt := nofun
  notice_known := nofun
  call_lt := nofun
  call_known := nofun

variable {v : Viewport κ} (h : s.Orderly)

include h

theorem live_nodup : s.live.Nodup := h.live_ascending.imp Nat.ne_of_lt

theorem lt_nextId (hv : s.viewport = some v) {id : Nat} (hid : id ∈ s.live) : id < v.nextId := by
  rw [← h.ids_eq v hv] at hid
  obtain ⟨l, hl, rfl⟩ := List.mem_map.mp hid
  obtain ⟨k, -, hk⟩ := h.listener_known v hv l hl
  rw [h.nextId_eq v hv]
  exact (List.getElem?_eq_some_iff.mp hk).1

theorem nodup (hv : s.viewport = some v) : (v.listeners.map Prod.fst).Nodup := by
  rw [h.ids_eq v hv]
  exact h.live_nodup

private theorem subscribe (hv : s.viewport = some v) (listener : κ) :
    Orderly { s with
      viewport := some (v.subscribe listener).2
      live := s.live ++ [v.nextId]
      joined := s.joined ++ [(listener, s.changes)] } := by
  have hjoined : s.joined <+: s.joined ++ [(listener, s.changes)] := List.prefix_append _ _
  refine { h with
    nextId_eq := ?next, ids_eq := ?ids, live_ascending := ?ascending, listener_known := ?known
    owned_live := fun p hp => List.mem_append_left _ (h.owned_live p hp)
    notice_known := fun n hn l hl => (h.notice_known n hn l hl).mono hjoined (Nat.le_refl _)
    call_known := fun c hc => (h.call_known c hc).mono hjoined (Nat.le_refl _) }
  case next =>
    rintro _ ⟨rfl⟩
    rw [List.length_append, ← h.nextId_eq v hv]
    rfl
  case ids =>
    rintro _ ⟨rfl⟩
    rw [Viewport.subscribe, List.map_append, h.ids_eq v hv]
    rfl
  case ascending =>
    refine List.pairwise_append.mpr ⟨h.live_ascending, List.pairwise_singleton _ _, ?_⟩
    intro id hid id' hid'
    rw [List.mem_singleton.mp hid']
    exact h.lt_nextId hv hid
  case known =>
    rintro _ ⟨rfl⟩ l hl
    rcases List.mem_append.mp hl with hl | hl
    · exact (h.listener_known v hv l hl).mono hjoined (Nat.le_refl _)
    · rw [List.mem_singleton.mp hl]
      refine ⟨s.changes, Nat.le_refl _, ?_⟩
      rw [h.nextId_eq v hv, List.getElem?_concat_length]

private theorem give {id : Nat} (hlive : id ∈ s.live) (hfree : s.Free id) (owner : Nat) :
    Orderly { s with owned := s.owned ++ [(id, owner)] } := by
  refine { h with owned_live := ?_, owned_nodup := ?_ }
  · exact List.forall_mem_append.mpr ⟨h.owned_live, List.forall_mem_singleton.mpr hlive⟩
  · rw [List.map_append, List.map_singleton, ← List.concat_eq_append]
    refine List.Nodup.concat (fun hother => ?_) h.owned_nodup
    obtain ⟨p, hp, heq⟩ := List.mem_map.mp hother
    exact hfree p hp heq

private theorem take (id : Nat) : Orderly { s with owned := s.owned.filter (·.1 != id) } :=
  { h with
    owned_live := fun p hp => h.owned_live p (List.mem_of_mem_filter hp)
    owned_nodup := h.owned_nodup.sublist (List.filter_sublist.map _) }

private theorem without (id : Nat) : (s.without id).Orderly := by
  refine { h with
    nextId_eq := ?next, ids_eq := ?ids, listener_known := ?known, owned_live := ?owned
    live_ascending := h.live_ascending.sublist List.erase_sublist
    owned_nodup := (h.take id).owned_nodup }
  case owned =>
    intro p hp
    obtain ⟨hp, hne⟩ := List.mem_filter.mp hp
    exact (List.mem_erase_of_ne (bne_iff_ne.mp hne)).mpr (h.owned_live p hp)
  all_goals
    intro v' hv'
    obtain ⟨v, hv, rfl⟩ := Option.map_eq_some_iff.mp hv'
  case next => exact h.nextId_eq v hv
  case ids =>
    change List.map Prod.fst (v.listeners.filter _) = s.live.erase id
    rw [← h.ids_eq v hv, (h.nodup hv).erase_eq_filter, List.filter_map]
    rfl
  case known =>
    intro l hl
    exact h.listener_known v hv l (List.mem_of_mem_filter hl)

private theorem foldl_without (ids : List Nat) : (ids.foldl Traffic.without s).Orderly := by
  induction ids generalizing s with
  | nil => exact h
  | cons id rest ih => exact ih (h.without id)

private theorem settle : s.settle.Orderly := by
  rw [Traffic.settle]
  split
  · exact { h with
      nextId_eq := nofun, ids_eq := nofun, listener_known := nofun
      live_ascending := h.live_ascending.sublist List.filter_sublist
      owned_live := nofun, owned_nodup := .nil }
  · exact h

private theorem resize (hv : s.viewport = some v) (width : Float) :
    Orderly { s with
      viewport := some { v with width }
      changes := s.changes + 1
      underWay := ⟨s.changes, width, none, v.listeners⟩ :: s.underWay } := by
  refine { h with
    nextId_eq := ?_, ids_eq := ?_, listener_known := ?_, notice_lt := ?_, notice_known := ?_
    call_lt := fun c hc => Nat.lt_succ_of_lt (h.call_lt c hc) }
  · rintro _ ⟨rfl⟩
    exact h.nextId_eq v hv
  · rintro _ ⟨rfl⟩
    exact h.ids_eq v hv
  · rintro _ ⟨rfl⟩ l hl
    exact (h.listener_known v hv l hl).mono (List.prefix_refl _) (Nat.le_succ _)
  · intro n hn
    rcases List.mem_cons.mp hn with rfl | hn
    · exact Nat.lt_succ_self _
    · exact Nat.lt_succ_of_lt (h.notice_lt n hn)
  · intro n hn
    rcases List.mem_cons.mp hn with rfl | hn
    · exact h.listener_known v hv
    · exact h.notice_known n hn

/-- The innermost change may be about to call fewer listeners, or have come to its end. -/
theorem underWay {n : Notice κ} {outer : List (Notice κ)} (hs : s.underWay = n :: outer)
    (n' : Notice κ) (hchange : n'.change = n.change) (hrest : n'.rest ⊆ n.rest) :
    Orderly { s with underWay := n' :: outer } := by
  obtain ⟨hlt, houter_lt⟩ := List.forall_mem_cons.mp (hs ▸ h.notice_lt)
  obtain ⟨hknown, houter_known⟩ := List.forall_mem_cons.mp (hs ▸ h.notice_known)
  refine { h with
    notice_lt := List.forall_mem_cons.mpr ⟨hchange ▸ hlt, houter_lt⟩
    notice_known := List.forall_mem_cons.mpr ⟨fun l hl => ?_, houter_known⟩ }
  exact hchange ▸ hknown l (hrest hl)

private theorem tell {change : Nat} {width : Float} {listener : Nat × κ} {rest : List (Nat × κ)}
    {outer : List (Notice κ)} (hs : s.underWay = ⟨change, width, none, listener :: rest⟩ :: outer) :
    Orderly { s with
      underWay := ⟨change, width, some listener.1, rest⟩ :: outer
      calls := s.calls ++ [⟨change, listener, width⟩] } := by
  have hcalled : Orderly { s with underWay := ⟨change, width, some listener.1, rest⟩ :: outer } :=
    h.underWay hs _ rfl (List.subset_cons_self _ _)
  have hmem : ⟨change, width, none, listener :: rest⟩ ∈ s.underWay := hs ▸ List.mem_cons_self
  refine { hcalled with call_lt := ?_, call_known := ?_ }
  · exact List.forall_mem_append.mpr
      ⟨h.call_lt, List.forall_mem_singleton.mpr (h.notice_lt _ hmem)⟩
  · exact List.forall_mem_append.mpr
      ⟨h.call_known,
        List.forall_mem_singleton.mpr (h.notice_known _ hmem _ List.mem_cons_self)⟩

/-- **Each move** keeps to it. -/
theorem step (move : Move κ) (hmove : s.step move = .ok t) : t.Orderly := by
  cases move with
  | subscribe listener =>
    obtain ⟨v, hv, rfl⟩ := (step_subscribe_eq_ok_iff _).mp hmove
    exact h.subscribe (inUse_eq_some_iff.mp hv).2 listener
  | give id owner =>
    obtain ⟨⟨hlive, hfree, -⟩, rfl⟩ := step_give_eq_ok_iff.mp hmove
    exact h.give hlive hfree owner
  | take id =>
    obtain ⟨-, rfl⟩ := step_take_eq_ok_iff.mp hmove
    exact h.take id
  | drop id =>
    obtain ⟨-, -, rfl⟩ := step_drop_eq_ok_iff.mp hmove
    exact h.without id
  | resize width =>
    obtain ⟨v, hv, rfl⟩ := (step_resize_eq_ok_iff _).mp hmove
    exact h.resize (inUse_eq_some_iff.mp hv).2 width
  | tell =>
    obtain ⟨change, width, listener, rest, outer, hs, rfl⟩ := step_tell_eq_ok_iff.mp hmove
    exact h.tell hs
  | back =>
    obtain ⟨change, width, id, rest, outer, hs, ids, rfl⟩ := exists_of_step_back hmove
    exact (h.underWay hs ⟨change, width, none, rest⟩ rfl (List.Subset.refl _)).foldl_without ids
  | finish =>
    obtain ⟨change, width, outer, hs, rfl⟩ := step_finish_eq_ok_iff.mp hmove
    refine settle { h with
      notice_lt := (List.forall_mem_cons.mp (hs ▸ h.notice_lt)).2
      notice_known := (List.forall_mem_cons.mp (hs ▸ h.notice_known)).2 }
  | close =>
    obtain rfl := step_close_eq_ok_iff.mp hmove
    exact settle { h with }

/-- So do any moves. -/
theorem run {moves : List (Move κ)} (hrun : s.run moves = .ok t) : t.Orderly :=
  run_induction (fun move hs => hs.step move) h hrun

end Orderly

/-! ### Changes -/

/-- A change makes these calls: some of them have been made, and the others are due. -/
structure Telling (s : Traffic κ) (change : Nat) (told : List (Call κ)) : Prop where
  lt : change < s.changes
  calls_append_due : s.callsOf change ++ s.dueOf change = told

namespace Telling

variable {change : Nat} {told : List (Call κ)}

/-- A change that has just been made. -/
theorem start (h : s.Orderly) (v : Viewport κ) (width : Float) :
    Telling { s with
      viewport := some { v with width }
      changes := s.changes + 1
      underWay := ⟨s.changes, width, none, v.listeners⟩ :: s.underWay }
      s.changes (v.listeners.map fun l => ⟨s.changes, l, width⟩) := by
  have hover : s.Over s.changes := fun n hn => Nat.ne_of_lt (h.notice_lt n hn)
  have hcalls : s.callsOf s.changes = [] :=
    List.filter_eq_nil_iff.mpr fun c hc => by simpa using Nat.ne_of_lt (h.call_lt c hc)
  refine ⟨Nat.lt_succ_self _, ?_⟩
  change s.callsOf s.changes ++ ((if s.changes = s.changes then _ else _) ++ s.dueOf s.changes) = _
  rw [hcalls, hover.dueOf_eq_nil, if_pos rfl, List.append_nil]
  rfl

theorem of_spares (hspares : s.Spares t) (h : s.Telling change told) : t.Telling change told := by
  refine ⟨hspares.changes_eq ▸ h.lt, ?_⟩
  rw [callsOf, dueOf, hspares.calls_eq, hspares.underWay_eq]
  exact h.calls_append_due

variable (h : s.Telling change told)

include h

/-- **Each move** keeps the promise. -/
theorem step (move : Move κ) (hmove : s.step move = .ok t) : t.Telling change told := by
  cases move with
  | subscribe listener =>
    obtain ⟨v, -, rfl⟩ := (step_subscribe_eq_ok_iff _).mp hmove
    exact ⟨h.lt, h.calls_append_due⟩
  | give id owner =>
    obtain ⟨-, rfl⟩ := step_give_eq_ok_iff.mp hmove
    exact ⟨h.lt, h.calls_append_due⟩
  | take id =>
    obtain ⟨-, rfl⟩ := step_take_eq_ok_iff.mp hmove
    exact ⟨h.lt, h.calls_append_due⟩
  | drop id =>
    obtain ⟨-, -, rfl⟩ := step_drop_eq_ok_iff.mp hmove
    exact ⟨h.lt, h.calls_append_due⟩
  | resize width =>
    obtain ⟨v, -, rfl⟩ := (step_resize_eq_ok_iff _).mp hmove
    refine ⟨Nat.lt_succ_of_lt h.lt, ?_⟩
    rw [dueOf, List.flatMap_cons, if_neg (Nat.ne_of_gt h.lt)]
    exact h.calls_append_due
  | tell =>
    obtain ⟨number, width, listener, rest, outer, hs, rfl⟩ := step_tell_eq_ok_iff.mp hmove
    refine ⟨h.lt, ?_⟩
    rw [← h.calls_append_due, callsOf, callsOf, dueOf, dueOf, hs, List.filter_append,
      List.append_assoc]
    -- either the first of the due calls goes over to those that were made, or nothing does
    by_cases hnumber : number = change <;> simp [hnumber, Notice.due]
  | back =>
    obtain ⟨number, width, id, rest, outer, hs, ids, rfl⟩ := exists_of_step_back hmove
    refine of_spares (spares_foldl_without _ ids) ⟨h.lt, ?_⟩
    rw [← h.calls_append_due, callsOf, callsOf, dueOf, dueOf, hs]
    rfl
  | finish =>
    obtain ⟨number, width, outer, hs, rfl⟩ := step_finish_eq_ok_iff.mp hmove
    refine of_spares (spares_settle _) ⟨h.lt, ?_⟩
    rw [← h.calls_append_due, callsOf, callsOf, dueOf, dueOf, hs]
    simp [Notice.due]
  | close =>
    obtain rfl := step_close_eq_ok_iff.mp hmove
    exact of_spares (spares_settle _) ⟨h.lt, h.calls_append_due⟩

/-- So do any moves. -/
theorem run {moves : List (Move κ)} (hrun : s.run moves = .ok t) : t.Telling change told :=
  run_induction (fun move (hs : Telling _ change told) => hs.step move) h hrun

theorem calls_prefix : s.callsOf change <+: told := ⟨_, h.calls_append_due⟩

/-- A change that is over has made its calls. -/
theorem calls_eq (hover : s.Over change) : s.callsOf change = told := by
  rw [← h.calls_append_due, hover.dueOf_eq_nil, List.append_nil]

end Telling

/-- Who has subscribed is never forgotten. -/
theorem joined_prefix {moves : List (Move κ)} (h : s.run moves = .ok t) :
    s.joined <+: t.joined := by
  refine run_induction (P := fun t => s.joined <+: t.joined) ?_ (List.prefix_refl _) h
  intro s' t' move hs' hmove
  refine hs'.trans ?_
  cases move with
  | subscribe listener =>
    obtain ⟨v, -, rfl⟩ := (step_subscribe_eq_ok_iff _).mp hmove
    exact List.prefix_append _ _
  | give id owner => exact (step_give_eq_ok_iff.mp hmove).2 ▸ List.prefix_refl _
  | take id => exact (step_take_eq_ok_iff.mp hmove).2 ▸ List.prefix_refl _
  | drop id => exact (step_drop_eq_ok_iff.mp hmove).2.2 ▸ List.prefix_refl _
  | resize width =>
    obtain ⟨v, -, rfl⟩ := (step_resize_eq_ok_iff _).mp hmove
    exact List.prefix_refl _
  | tell =>
    obtain ⟨_, _, _, _, _, -, rfl⟩ := step_tell_eq_ok_iff.mp hmove
    exact List.prefix_refl _
  | back =>
    obtain ⟨_, _, _, _, _, -, ids, rfl⟩ := exists_of_step_back hmove
    rw [(spares_foldl_without _ ids).joined_eq]
  | finish =>
    obtain ⟨_, _, _, -, rfl⟩ := step_finish_eq_ok_iff.mp hmove
    rw [(spares_settle _).joined_eq]
  | close =>
    obtain rfl := step_close_eq_ok_iff.mp hmove
    rw [(spares_settle _).joined_eq]

/-- Some moves lead from one to the other. -/
def Leads (s t : Traffic κ) : Prop := ∃ moves, s.run moves = .ok t

namespace Leads

theorem refl (s : Traffic κ) : s.Leads s := ⟨[], rfl⟩

theorem trans {u : Traffic κ} (h : s.Leads t) (h' : t.Leads u) : s.Leads u := by
  obtain ⟨moves, h⟩ := h
  obtain ⟨moves', h'⟩ := h'
  exact ⟨moves ++ moves', (run_append h).trans h'⟩

theorem single (move : Move κ) (h : s.step move = .ok t) : s.Leads t :=
  ⟨[move], run_cons h []⟩

theorem orderly (h : s.Leads t) (hs : s.Orderly) : t.Orderly :=
  let ⟨_, hrun⟩ := h
  hs.run hrun

theorem telling {change : Nat} {told : List (Call κ)} (h : s.Leads t)
    (hs : s.Telling change told) : t.Telling change told :=
  let ⟨_, hrun⟩ := h
  hs.run hrun

end Leads

end SceneCanvas.Host.Traffic
