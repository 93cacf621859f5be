import Mathlib.Data.List.Induction

/-!
# Tokens of which the last one counts

Captions and pictures are placed by reading tokens from left to right, and each token overwrites
what it is about. What is left in the end is what the last such token says, which `lastOf` looks up
in a table, without reading the tokens one after the other.

* `lastOf_append`: what was said before is the starting point for what comes after.
* `lastOf_filter`: tokens that do not stand in the table do not count.
-/

namespace SceneCanvas.Script

variable {β : Type}

theorem lookup_entry (key : String) (v : β) (table : List (String × β)) (token : String) :
    List.lookup token ((key, v) :: table) = if token = key then some v else table.lookup token := by
  rw [List.lookup_cons]
  by_cases htoken : token = key
  · rw [if_pos htoken, beq_iff_eq.mpr htoken]
  · rw [if_neg htoken, beq_eq_false_iff_ne.mpr htoken]

/-- What the last of the tokens that stand in the table says, and `start` if there is none. -/
def lastOf (table : List (String × β)) (start : β) (tokens : List String) : β :=
  (tokens.filterMap fun token => table.lookup token).getLastD start

section

variable (table : List (String × β)) (start : β)

@[simp] theorem lastOf_nil : lastOf table start [] = start := rfl

theorem lastOf_concat (tokens : List String) (token : String) :
    lastOf table start (tokens ++ [token])
      = (table.lookup token).getD (lastOf table start tokens) := by
  rw [lastOf, List.filterMap_append]
  cases htoken : table.lookup token with
  | none => simp [lastOf, htoken]
  | some v => simp [htoken]

/-- **What was said before** is the starting point for what comes after. -/
theorem lastOf_append (before after : List String) :
    lastOf table start (before ++ after) = lastOf table (lastOf table start before) after := by
  induction after using List.reverseRecOn with
  | nil => rw [List.append_nil, lastOf_nil]
  | append_singleton after token ih =>
    rw [← List.append_assoc, lastOf_concat, lastOf_concat, ih]

theorem lastOf_cons (token : String) (tokens : List String) :
    lastOf table start (token :: tokens)
      = lastOf table ((table.lookup token).getD start) tokens := by
  have hfirst : lastOf table start [token] = (table.lookup token).getD start :=
    lastOf_concat table start [] token
  rw [← List.singleton_append, lastOf_append, hfirst]

/-- Tokens that do not stand in the table may be left out. -/
theorem lastOf_filter {p : String → Bool} (hp : ∀ t, p t = false → table.lookup t = none)
    (tokens : List String) : lastOf table start (tokens.filter p) = lastOf table start tokens := by
  induction tokens using List.reverseRecOn with
  | nil => rfl
  | append_singleton tokens token ih =>
    rw [List.filter_append, lastOf_append, ih, lastOf_concat]
    cases htoken : p token with
    | true => rw [List.filter_cons_of_pos htoken, List.filter_nil, lastOf_cons, lastOf_nil]
    | false => simp [htoken, hp token htoken]

end

/-! ### Changes that do not count -/

section

variable {table : List (String × β)} {token other : String} (start : β)
  (before after : List String)

theorem lastOf_drop (h : table.lookup token = none) :
    lastOf table start (before ++ token :: after) = lastOf table start (before ++ after) := by
  rw [lastOf_append, lastOf_append, lastOf_cons, h, Option.getD_none]

theorem lastOf_swap (h : table.lookup token = none ∨ table.lookup other = none) :
    lastOf table start (before ++ token :: other :: after)
      = lastOf table start (before ++ other :: token :: after) := by
  simp only [lastOf_append, lastOf_cons]
  rcases h with h | h
  · rw [h, Option.getD_none, Option.getD_none]
  · rw [h, Option.getD_none, Option.getD_none]

theorem lastOf_once :
    lastOf table start (before ++ token :: token :: after)
      = lastOf table start (before ++ token :: after) := by
  simp only [lastOf_append, lastOf_cons]
  cases table.lookup token with
  | none => rfl
  | some v => rfl

end

/-- If the last of the tokens that can stand in the table does, it is what counts. -/
theorem lastOf_eq_of_filter_eq_concat {p : String → Bool} {table : List (String × β)}
    (hp : ∀ t, p t = false → table.lookup t = none) {tokens before : List String} {token : String}
    (h : tokens.filter p = before ++ [token]) {v : β} (hv : table.lookup token = some v)
    (start : β) : lastOf table start tokens = v := by
  rw [← lastOf_filter table start hp tokens, h, lastOf_concat, hv, Option.getD_some]

end SceneCanvas.Script
