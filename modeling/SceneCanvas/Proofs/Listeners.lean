import SceneCanvas.Host.Viewport
import Mathlib.Data.List.Nodup

/-!
# The listeners of a viewport

A block registers one listener when it is mounted, and takes it out when it is dropped. A viewport
knows its listeners by numbers that are never given out twice, so taking one out takes out no other
(`Host.Viewport.listeners_unsubscribe`), and the listeners of blocks are those of the blocks that
have not been dropped, one for each (`Host.Viewport.Registers`). Mounting and dropping blocks keeps
it so, and so does everything that listeners of others do.
-/

namespace SceneCanvas.Host.Viewport

section

variable {κ : Type} {v : Viewport κ} {id : Nat} {owner : κ}

/-- Taking a listener out takes out that one alone. -/
theorem listeners_unsubscribe {l₁ l₂ : List (Nat × κ)} (hids : (v.listeners.map Prod.fst).Nodup)
    (h : v.listeners = l₁ ++ (id, owner) :: l₂) : (v.unsubscribe id).listeners = l₁ ++ l₂ := by
  rw [h, List.map_append, List.map_cons, List.nodup_middle, List.nodup_cons,
    List.mem_append] at hids
  obtain ⟨hid, -⟩ := hids
  have hkept {l : List (Nat × κ)} (hl : id ∉ l.map Prod.fst) :
      l.filter (fun l => l.1 != id) = l := by
    refine List.filter_eq_self.mpr fun l' hl' => bne_iff_ne.mpr ?_
    rintro rfl
    exact hl (List.mem_map_of_mem hl')
  rw [unsubscribe, h, List.filter_append, List.filter_cons_of_neg (by simp),
    hkept fun hl => hid (.inl hl), hkept fun hl => hid (.inr hl)]

/-- Without such a listener, taking it out changes nothing. -/
theorem unsubscribe_of_notMem (h : ∀ owner, (id, owner) ∉ v.listeners) : v.unsubscribe id = v := by
  have hkept : v.listeners.filter (fun l => l.1 != id) = v.listeners := by
    refine List.filter_eq_self.mpr fun l hl => bne_iff_ne.mpr ?_
    rintro rfl
    exact h l.2 hl
  rw [unsubscribe, hkept]

theorem mem_listeners_unsubscribe {id' : Nat} :
    (id', owner) ∈ (v.unsubscribe id).listeners ↔ (id', owner) ∈ v.listeners ∧ id' ≠ id := by
  rw [unsubscribe, List.mem_filter, bne_iff_ne]

end

/-- The viewport has the listeners of some blocks. Of a block in turn its listener is given, and
whether it has been dropped. -/
structure Registers (v : Viewport (Option Nat)) (registrations : List (Nat × Bool)) : Prop where
  ids_nodup : (v.listeners.map Prod.fst).Nodup
  /-- The number of the next listener is new, also among those that were taken out. -/
  id_lt : ∀ l ∈ v.listeners, l.1 < v.nextId
  registration_lt : ∀ r ∈ registrations, r.1 < v.nextId
  /-- The listener of a block is there until the block is dropped, and never another's. -/
  mem_iff : ∀ n id gone, registrations[n]? = some (id, gone) →
    ∀ owner, (id, owner) ∈ v.listeners ↔ owner = some n ∧ gone = false
  count_eq : v.listeners.countP (·.2.isSome) = registrations.countP (!·.2)

namespace Registers

variable {v : Viewport (Option Nat)} {registrations : List (Nat × Bool)}

theorem resize (h : v.Registers registrations) (width : Float) :
    (v.resize width).2.Registers registrations :=
  ⟨h.ids_nodup, h.id_lt, h.registration_lt, h.mem_iff, h.count_eq⟩

private theorem nodup_subscribe (h : v.Registers registrations) (owner : Option Nat) :
    ((v.subscribe owner).2.listeners.map Prod.fst).Nodup := by
  rw [subscribe, List.map_append, List.map_singleton, ← List.concat_eq_append]
  refine List.Nodup.concat (fun hid => ?_) h.ids_nodup
  obtain ⟨l, hl, heq⟩ := List.mem_map.mp hid
  exact Nat.ne_of_lt (h.id_lt l hl) heq

private theorem lt_subscribe (h : v.Registers registrations) (owner : Option Nat) :
    ∀ l ∈ (v.subscribe owner).2.listeners, l.1 < (v.subscribe owner).2.nextId := by
  intro l hl
  rcases List.mem_append.mp hl with hl | hl
  · exact Nat.lt_succ_of_lt (h.id_lt l hl)
  · rw [List.mem_singleton.mp hl]
    exact Nat.lt_succ_self _

/-- A listener that is no block's is registered. -/
theorem listen (h : v.Registers registrations) : (v.subscribe none).2.Registers registrations where
  ids_nodup := h.nodup_subscribe none
  id_lt := h.lt_subscribe none
  registration_lt r hr := Nat.lt_succ_of_lt (h.registration_lt r hr)
  mem_iff n id gone hn owner := by
    have hid : id ≠ v.nextId := Nat.ne_of_lt (h.registration_lt _ (List.mem_of_getElem? hn))
    have hnew : (id, owner) ∉ [(v.nextId, none)] := by
      simp [hid]
    rw [← h.mem_iff n id gone hn owner, subscribe, List.mem_append, or_iff_left hnew]
  count_eq := by
    rw [subscribe, List.countP_append, h.count_eq]
    rfl

/-- The listener of a further block is registered. -/
theorem mount (h : v.Registers registrations) :
    (v.subscribe (some registrations.length)).2.Registers
      (registrations ++ [(v.nextId, false)]) where
  ids_nodup := h.nodup_subscribe _
  id_lt := h.lt_subscribe _
  registration_lt r hr := by
    rcases List.mem_append.mp hr with hr | hr
    · exact Nat.lt_succ_of_lt (h.registration_lt r hr)
    · rw [List.mem_singleton.mp hr]
      exact Nat.lt_succ_self _
  mem_iff n id gone hn owner := by
    have hold : (v.nextId, owner) ∉ v.listeners := fun hmem =>
      absurd (h.id_lt _ hmem) (Nat.lt_irrefl _)
    rw [subscribe, List.mem_append, List.mem_singleton]
    rcases Nat.lt_or_ge n registrations.length with hlt | hge
    · rw [List.getElem?_append_left hlt] at hn
      have hid : id ≠ v.nextId := Nat.ne_of_lt (h.registration_lt _ (List.mem_of_getElem? hn))
      rw [h.mem_iff n id gone hn owner, or_iff_left (by simp [hid])]
    · rw [List.getElem?_append_right hge, List.getElem?_singleton] at hn
      obtain ⟨hn, heq⟩ := Option.ite_none_right_eq_some.mp hn
      obtain ⟨rfl, rfl⟩ := Prod.mk.inj (Option.some.inj heq)
      obtain rfl : n = registrations.length := by omega
      rw [or_iff_right hold]
      simp
  count_eq := by
    rw [subscribe, List.countP_append, h.count_eq, List.countP_append]
    rfl

/-- A listener that is no block's is taken out. -/
theorem unlisten (h : v.Registers registrations) {id : Nat} (hid : (id, none) ∈ v.listeners) :
    (v.unsubscribe id).Registers registrations where
  ids_nodup := h.ids_nodup.sublist (List.filter_sublist.map _)
  id_lt l hl := h.id_lt l (List.mem_of_mem_filter hl)
  registration_lt := h.registration_lt
  mem_iff n id' gone hn owner := by
    rw [mem_listeners_unsubscribe, h.mem_iff n id' gone hn owner]
    refine and_iff_left_of_imp fun _ => ?_
    rintro rfl
    cases ((h.mem_iff n id' gone hn none).mp hid).1
  count_eq := by
    obtain ⟨l₁, l₂, hl⟩ := List.append_of_mem hid
    rw [listeners_unsubscribe h.ids_nodup hl, ← h.count_eq, hl]
    simp

/-- The listener of a block that is dropped is taken out, or was so before. -/
theorem drop (h : v.Registers registrations) {n id : Nat} {gone : Bool}
    (hn : registrations[n]? = some (id, gone)) :
    (v.unsubscribe id).Registers (registrations.set n (id, true)) where
  ids_nodup := h.ids_nodup.sublist (List.filter_sublist.map _)
  id_lt l hl := h.id_lt l (List.mem_of_mem_filter hl)
  registration_lt r hr := by
    rcases List.mem_or_eq_of_mem_set hr with hr | rfl
    · exact h.registration_lt r hr
    · exact h.registration_lt (id, gone) (List.mem_of_getElem? hn)
  mem_iff n' id' gone' hn' owner := by
    rw [mem_listeners_unsubscribe]
    rw [List.getElem?_set] at hn'
    split at hn'
    next heq =>
      obtain ⟨-, hreg⟩ := Option.ite_none_right_eq_some.mp hn'
      obtain ⟨rfl, rfl⟩ := Prod.mk.inj (Option.some.inj hreg)
      simp
    next hne =>
      rw [h.mem_iff n' id' gone' hn' owner]
      refine and_iff_left_of_imp ?_
      rintro ⟨rfl, rfl⟩ rfl
      -- one listener would be that of two blocks
      have hmem := (h.mem_iff n' id' false hn' (some n')).mpr ⟨rfl, rfl⟩
      have howner := ((h.mem_iff n id' gone hn (some n')).mp hmem).1
      exact hne (Option.some.inj howner).symm
  count_eq := by
    obtain ⟨hlt, hget⟩ := List.getElem?_eq_some_iff.mp hn
    rw [List.countP_set hlt, hget]
    cases gone with
    | false =>
      have hmem := (h.mem_iff n id false hn (some n)).mpr ⟨rfl, rfl⟩
      obtain ⟨l₁, l₂, hl⟩ := List.append_of_mem hmem
      rw [listeners_unsubscribe h.ids_nodup hl, ← h.count_eq, hl]
      simp
    | true =>
      have hnone : ∀ owner, (id, owner) ∉ v.listeners := fun owner hmem =>
        Bool.noConfusion ((h.mem_iff n id true hn owner).mp hmem).2
      rw [unsubscribe_of_notMem hnone, h.count_eq]
      simp

end Registers

end SceneCanvas.Host.Viewport
