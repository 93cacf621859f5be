import SceneCanvas.Proofs.Traffic

/-!
# What the user of a viewport can rely on

`Host.Traffic.Fair` says what can be relied on at any time, whatever has been done to a viewport
(`Host.Traffic.Orderly.fair`), and when dropping a subscription never comes to its end: under the
lock of the viewport a listener that owns subscriptions must not be destroyed.

Traffic in which no listener owns a subscription is not stuck (`Host.Traffic.run_ne_stuck`), and all
its changes can come to their end (`Host.Traffic.exists_idle`).
-/

namespace SceneCanvas.Host.Traffic

variable {κ : Type} {s t : Traffic κ}

/-! ### What can be relied on -/

/-- What can be relied on at any time. -/
structure Fair (s : Traffic κ) : Prop where
  /-- The listeners are those of the live subscriptions. -/
  listeners_eq : ∀ v, s.viewport = some v →
    v.listeners.map Prod.fst = s.live ∧ v.listenerCount = s.live.length ∧
    ∀ id ∈ s.live, id < v.nextId
  /-- The numbers of subscriptions tell them apart and keep their order. -/
  live_ascending : s.live.Pairwise (· < ·)
  /-- A drop of a subscription never comes to its end just if it would destroy a listener that owns
  subscriptions. -/
  drop_stuck_iff : ∀ id ∈ s.live, s.Free id → (s.step (.drop id) = .error .stuck ↔ s.Jams id)
  /-- Otherwise it takes out its own listener, if the viewport is still there. -/
  drop : ∀ id ∈ s.live, s.Free id → ¬ s.Jams id → ∃ t, s.step (.drop id) = .ok t ∧
    t.live = s.live.erase id ∧ t.calls = s.calls ∧ (s.viewport = none → t.viewport = none) ∧
    ∀ v, s.viewport = some v → ∃ owner l₁ l₂, v.listeners = l₁ ++ (id, owner) :: l₂ ∧
      t.viewport = some { v with listeners := l₁ ++ l₂ }
  /-- A listener that comes back after it has been taken out leaves what it owns to be dropped, if
  no other change holds on to it. The same goes for these drops. -/
  back : ∀ change width id rest outer, s.underWay = ⟨change, width, some id, rest⟩ :: outer →
    let s' := { s with underWay := ⟨change, width, none, rest⟩ :: outer }
    (s.step .back = .error .stuck ↔ ∃ left ∈ s'.estate id, s'.Jams left) ∧
    ((∀ left ∈ s'.estate id, ¬ s'.Jams left) → ∃ t, s.step .back = .ok t ∧
      t.live = (s.live.filter fun other => decide (other ∉ s'.estate id)) ∧
      t.underWay = s'.underWay ∧ t.calls = s.calls)
  /-- A change calls the listeners that it finds, each once and in order, whatever happens. -/
  resize : ∀ v, s.inUse = some v → ∀ width, ∃ t, s.step (.resize width) = .ok t ∧
    t.viewport = some { v with width } ∧ t.calls = s.calls ∧
    ∀ u, t.Leads u →
      let told := v.listeners.map fun l => Call.mk s.changes l width
      u.callsOf s.changes <+: told ∧ (u.Over s.changes → u.callsOf s.changes = told)
  /-- As long as no listener owns a subscription, all changes can come to their end. -/
  ends : s.owned = [] → ∃ t, s.Leads t ∧ t.underWay = []
  /-- A listener that subscribes is there as long as its subscription lives, and it is called by
  later changes only. -/
  subscribe : ∀ v, s.inUse = some v → ∀ listener, ∃ t,
    s.step (.subscribe listener) = .ok t ∧ t.live = s.live ++ [v.nextId] ∧
    t.viewport = some { v with
      nextId := v.nextId + 1, listeners := v.listeners ++ [(v.nextId, listener)] } ∧
    ∀ u, t.Leads u →
      (∀ v', u.viewport = some v' → ((v.nextId, listener) ∈ v'.listeners ↔ v.nextId ∈ u.live)) ∧
      ∀ c ∈ u.calls, c.listener.1 = v.nextId → c.listener.2 = listener ∧ s.changes ≤ c.change

/-- A number stands for the listener that it was given to, for good. -/
theorem eq_of_knows {id : Nat} {listener : κ} {joinedAt change : Nat} {l : Nat × κ}
    (h : s.joined[id]? = some (listener, joinedAt)) (hl : s.Knows change l) (hid : l.1 = id) :
    l.2 = listener ∧ joinedAt ≤ change := by
  obtain ⟨k, hk, hget⟩ := hl
  rw [hid, h] at hget
  cases hget
  exact ⟨rfl, hk⟩

theorem mem_possessions {id owner : Nat} :
    id ∈ s.possessions owner ↔ (id, owner) ∈ s.owned := by
  rw [possessions, List.mem_map]
  constructor
  · rintro ⟨p, hp, rfl⟩
    obtain ⟨hp, howner⟩ := List.mem_filter.mp hp
    exact beq_iff_eq.mp howner ▸ hp
  · intro h
    exact ⟨_, List.mem_filter.mpr ⟨h, beq_self_eq_true _⟩, rfl⟩

namespace Orderly

variable (h : s.Orderly)

include h

/-- What a listener leaves is dropped without any of these getting stuck, or not at all. -/
theorem letGo_eq_stuck_iff (id : Nat) :
    s.letGo id = .error .stuck ↔ ∃ left ∈ s.estate id, s.Jams left := by
  rw [letGo, estate]
  split
  next => exact iff_of_false nofun (by simp)
  next hgone =>
    refine foldlM_discard_eq_stuck_iff id ?_ ?_
    · intro left hleft p hp hid
      have hown := List.inj_on_of_nodup_map h.owned_nodup hp (mem_possessions.mp hleft) hid
      rw [hown]
    · rintro hsome left hleft rfl
      obtain ⟨v, hv⟩ := Option.isSome_iff_exists.mp hsome
      -- a listener whose own subscription is live has not been taken out
      have hlive := h.owned_live _ (mem_possessions.mp hleft)
      rw [← h.ids_eq v hv] at hlive
      obtain ⟨l, hl, hid⟩ := List.mem_map.mp hlive
      exact hgone (.inl ⟨v, hv, l, hl, hid⟩)

end Orderly

/-! ### Traffic in which no listener owns a subscription -/

section Unowned

variable (howned : s.owned = [])

include howned

theorem not_jams (id : Nat) : ¬ s.Jams id := by
  rintro ⟨-, -, hpossessions⟩
  rw [possessions, howned] at hpossessions
  exact hpossessions rfl

theorem free_of_owned_eq_nil (id : Nat) : s.Free id := by
  rw [Free, howned]
  exact fun p hp => absurd hp List.not_mem_nil

/-- Subscriptions can be dropped. -/
theorem step_drop_eq_ok {id : Nat} (hlive : id ∈ s.live) :
    s.step (.drop id) = .ok (s.without id) :=
  step_drop_eq_ok_iff.mpr ⟨⟨hlive, free_of_owned_eq_nil howned id⟩, not_jams howned id, rfl⟩

/-- Listeners leave nothing. -/
theorem letGo_eq_ok (id : Nat) : s.letGo id = .ok s := by
  rw [letGo, estate, possessions, howned]
  split <;> rfl

theorem owned_foldl_without (ids : List Nat) : (ids.foldl without s).owned = [] := by
  induction ids generalizing s with
  | nil => exact howned
  | cons id rest ih =>
    refine ih (s := s.without id) ?_
    rw [without, howned, List.filter_nil]

theorem owned_settle : s.settle.owned = [] := by
  rw [settle]
  split
  · rfl
  · exact howned

/-- **No move** is stuck. -/
theorem step_ne_stuck (move : Move κ) : s.step move ≠ .error .stuck := by
  intro h
  cases move with
  | subscribe | resize => rw [step] at h; split at h <;> cases h
  | give | take => rw [step] at h; split at h <;> cases h
  | drop id =>
    rw [step] at h
    split at h
    · exact not_jams howned id (discard_eq_stuck_iff.mp h)
    · cases h
  | tell | finish => rw [step] at h; split at h <;> cases h
  | back =>
    rw [step] at h
    split at h
    next change width id rest outer _ =>
      have hback := letGo_eq_ok (s := { s with underWay := ⟨change, width, none, rest⟩ :: outer })
        howned id
      cases h.symm.trans hback
    next => cases h
  | close => cases h

/-- It stays so as long as no subscription is given to a listener. -/
theorem owned_step {move : Move κ} (h : s.step move = .ok t)
    (hmove : ∀ id owner, move ≠ .give id owner) : t.owned = [] := by
  cases move with
  | subscribe listener =>
    obtain ⟨v, -, rfl⟩ := (step_subscribe_eq_ok_iff _).mp h
    exact howned
  | give id owner => exact absurd rfl (hmove id owner)
  | take id =>
    obtain ⟨-, rfl⟩ := step_take_eq_ok_iff.mp h
    rw [howned, List.filter_nil]
  | drop id =>
    obtain ⟨-, -, rfl⟩ := step_drop_eq_ok_iff.mp h
    rw [without, howned, List.filter_nil]
  | resize width =>
    obtain ⟨v, -, rfl⟩ := (step_resize_eq_ok_iff _).mp h
    exact howned
  | tell =>
    obtain ⟨_, _, _, _, _, -, rfl⟩ := step_tell_eq_ok_iff.mp h
    exact howned
  | back =>
    obtain ⟨_, _, _, _, _, -, ids, rfl⟩ := exists_of_step_back h
    refine owned_foldl_without ?_ ids
    exact howned
  | finish =>
    obtain ⟨_, _, _, -, rfl⟩ := step_finish_eq_ok_iff.mp h
    exact owned_settle howned
  | close =>
    obtain rfl := step_close_eq_ok_iff.mp h
    exact owned_settle howned

/-- **No moves** are stuck that give no subscription to a listener. -/
theorem run_ne_stuck {moves : List (Move κ)} (hmoves : ∀ id owner, .give id owner ∉ moves) :
    s.run moves ≠ .error .stuck := by
  induction moves generalizing s with
  | nil => exact nofun
  | cons move rest ih =>
    cases hmove : s.step move with
    | error e =>
      rw [run, List.foldlM_cons, hmove]
      exact fun h => step_ne_stuck howned move (hmove.trans h)
    | ok t =>
      rw [run_cons hmove]
      refine ih (owned_step howned hmove ?_) fun id owner h => ?_
      · rintro id owner rfl
        exact hmoves id owner List.mem_cons_self
      · exact hmoves id owner (List.mem_cons_of_mem _ h)

/-- The listener that is called comes back. -/
theorem step_back_eq_ok {change : Nat} {width : Float} {id : Nat} {rest : List (Nat × κ)}
    {outer : List (Notice κ)} (hs : s.underWay = ⟨change, width, some id, rest⟩ :: outer) :
    s.step .back = .ok { s with underWay := ⟨change, width, none, rest⟩ :: outer } := by
  rw [step_back hs]
  refine letGo_eq_ok ?_ id
  exact howned

/-- The innermost change can come to its end, if it is not calling a listener. -/
private theorem exists_finished_of_none {change : Nat} {width : Float} {rest : List (Nat × κ)}
    {outer : List (Notice κ)} (hs : s.underWay = ⟨change, width, none, rest⟩ :: outer) :
    ∃ t, s.Leads t ∧ t.owned = [] ∧ t.underWay = outer := by
  induction rest generalizing s with
  | nil =>
    have hfinish := step_finish_eq_ok_iff.mpr ⟨change, width, outer, hs, rfl⟩
    exact ⟨_, .single _ hfinish, owned_step howned hfinish nofun, (spares_settle _).underWay_eq⟩
  | cons l rest ih =>
    have htell := step_tell_eq_ok_iff.mpr ⟨change, width, l, rest, outer, hs, rfl⟩
    have hback := step_back_eq_ok (owned_step howned htell nofun) rfl
    obtain ⟨t, hleads, ht⟩ := ih (owned_step (owned_step howned htell nofun) hback nofun) rfl
    exact ⟨t, ((Leads.single _ htell).trans (.single _ hback)).trans hleads, ht⟩

/-- The innermost change can come to its end. -/
private theorem exists_finished {n : Notice κ} {outer : List (Notice κ)}
    (hs : s.underWay = n :: outer) : ∃ t, s.Leads t ∧ t.owned = [] ∧ t.underWay = outer := by
  obtain ⟨change, width, current, rest⟩ := n
  cases current with
  | none => exact exists_finished_of_none howned hs
  | some id =>
    have hback := step_back_eq_ok howned hs
    obtain ⟨t, hleads, ht⟩ := exists_finished_of_none (owned_step howned hback nofun) rfl
    exact ⟨t, (Leads.single _ hback).trans hleads, ht⟩

/-- **All changes** can come to their end. -/
theorem exists_idle : ∃ t, s.Leads t ∧ t.underWay = [] := by
  generalize hs : s.underWay = frames
  induction frames generalizing s with
  | nil => exact ⟨s, .refl s, hs⟩
  | cons n outer ih =>
    obtain ⟨t, hleads, hunowned, ht⟩ := exists_finished howned hs
    obtain ⟨u, hu, hidle⟩ := ih hunowned ht
    exact ⟨u, hleads.trans hu, hidle⟩

end Unowned

/-- **Everything** that is orderly can be relied on. -/
theorem Orderly.fair (h : s.Orderly) : s.Fair where
  listeners_eq v hv := by
    have hids := h.ids_eq v hv
    refine ⟨hids, ?_, fun id hid => h.lt_nextId hv hid⟩
    rw [Viewport.listenerCount, ← hids, List.length_map]
  live_ascending := h.live_ascending
  drop_stuck_iff id hid hfree := by rw [step_drop hid hfree, discard_eq_stuck_iff]
  drop id hid hfree hjams := by
    refine ⟨_, step_drop_eq_ok_iff.mpr ⟨⟨hid, hfree⟩, hjams, rfl⟩, rfl, rfl,
      fun hnone => ?_, fun v hv => ?_⟩
    · rw [Traffic.without, hnone, Option.map_none]
    · rw [← h.ids_eq v hv] at hid
      obtain ⟨⟨_, owner⟩, hl, rfl⟩ := List.mem_map.mp hid
      obtain ⟨l₁, l₂, hsplit⟩ := List.append_of_mem hl
      refine ⟨owner, l₁, l₂, hsplit, ?_⟩
      rw [Traffic.without, hv, Option.map_some,
        ← Viewport.listeners_unsubscribe (h.nodup hv) hsplit]
      rfl
  back change width id rest outer hs := by
    have hafter : Orderly { s with underWay := ⟨change, width, none, rest⟩ :: outer } :=
      h.underWay hs _ rfl (List.Subset.refl _)
    have hstuck := hafter.letGo_eq_stuck_iff id
    dsimp only
    rw [step_back hs]
    refine ⟨hstuck, fun hfree => ?_⟩
    rcases foldlM_discard { s with underWay := ⟨change, width, none, rest⟩ :: outer } _ with
      hdrops | hdrops
    · obtain ⟨left, hleft, hjams⟩ := hstuck.mp hdrops
      exact absurd hjams (hfree left hleft)
    · obtain ⟨-, -, hunderWay, hcalls⟩ :=
        spares_foldl_without { s with underWay := ⟨change, width, none, rest⟩ :: outer } _
      exact ⟨_, hdrops, live_foldl_without _ _ hafter.live_nodup, hunderWay, hcalls⟩
  resize v hv width := by
    refine ⟨_, (step_resize_eq_ok_iff width).mpr ⟨v, hv, rfl⟩, rfl, rfl, fun u hu => ?_⟩
    have htelling := hu.telling (Telling.start h v width)
    exact ⟨htelling.calls_prefix, htelling.calls_eq⟩
  ends howned := exists_idle howned
  subscribe v hv listener := by
    have hviewport := (inUse_eq_some_iff.mp hv).2
    have hstep := (step_subscribe_eq_ok_iff listener).mpr ⟨v, hv, rfl⟩
    refine ⟨_, hstep, rfl, rfl, fun u hu => ?_⟩
    have hu_orderly : u.Orderly := hu.orderly (h.step _ hstep)
    have hjoined : u.joined[v.nextId]? = some (listener, s.changes) := by
      obtain ⟨moves, hrun⟩ := hu
      obtain ⟨more, hmore⟩ := joined_prefix hrun
      rw [← hmore, h.nextId_eq v hviewport]
      simp
    refine ⟨fun v' hv' => ?_, fun c hc => eq_of_knows hjoined (hu_orderly.call_known c hc)⟩
    rw [← hu_orderly.ids_eq v' hv']
    refine ⟨List.mem_map_of_mem, fun hid => ?_⟩
    obtain ⟨⟨id, owner⟩, hl, hid⟩ := List.mem_map.mp hid
    obtain ⟨heq, -⟩ := eq_of_knows hjoined (hu_orderly.listener_known v' hv' _ hl) hid
    cases heq
    cases hid
    exact hl

end SceneCanvas.Host.Traffic
