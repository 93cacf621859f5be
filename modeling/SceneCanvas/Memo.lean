/-!
# Memo tables

A memo table remembers the answer to every question that it has been asked, failures included.
Entries are added and never changed or taken out, so asking again gives the first answer
(`Memo.find?_insert`).
-/

namespace SceneCanvas

/-- Questions and their answers, the oldest first. -/
structure Memo (κ β : Type) where
  entries : List (κ × β) := []
deriving Repr, Inhabited

namespace Memo

variable {κ β : Type} [BEq κ]

/-- The remembered answer. -/
def find? (m : Memo κ β) (key : κ) : Option β := m.entries.lookup key

/-- Remember an answer to a question that has none yet. -/
def insert (m : Memo κ β) (key : κ) (answer : β) : Memo κ β := ⟨m.entries ++ [(key, answer)]⟩

/-- The questions that have an answer, the oldest first. -/
def keys (m : Memo κ β) : List κ := m.entries.map Prod.fst

/-- The number of questions answered. -/
def size (m : Memo κ β) : Nat := m.entries.length

/-- What is remembered after an answer has been added: the answers from before, and this one. -/
theorem find?_insert (m : Memo κ β) (key key' : κ) (answer : β) :
    (m.insert key answer).find? key'
      = (m.find? key').or (if key' == key then some answer else none) := by
  rw [find?, insert, List.lookup_append, find?, List.lookup_cons, List.lookup_nil]
  cases key' == key <;> rfl

omit [BEq κ] in
theorem keys_insert (m : Memo κ β) (key : κ) (answer : β) :
    (m.insert key answer).keys = m.keys ++ [key] := List.map_append

section

variable [LawfulBEq κ] {m : Memo κ β} {key : κ}

theorem find?_eq_none_iff : m.find? key = none ↔ key ∉ m.keys := by
  rw [find?, List.lookup_eq_none_iff, keys, List.mem_map]
  constructor
  · rintro h ⟨entry, hentry, rfl⟩
    exact absurd rfl (bne_iff_ne.mp (h entry hentry))
  · intro h entry hentry
    exact bne_iff_ne.mpr fun heq => h ⟨entry, hentry, heq.symm⟩

/-- The answer to a new question keeps the questions different. -/
theorem nodup_keys_insert (hm : m.keys.Nodup) (hkey : m.find? key = none) (answer : β) :
    (m.insert key answer).keys.Nodup := by
  rw [keys_insert]
  refine List.nodup_append.mpr ⟨hm, List.nodup_cons.mpr ⟨List.not_mem_nil, List.nodup_nil⟩,
    fun asked hasked asked' hasked' heq => ?_⟩
  rw [List.mem_singleton.mp hasked'] at heq
  exact find?_eq_none_iff.mp hkey (heq ▸ hasked)

end

end Memo

end SceneCanvas
