/-!
# Failures and counted loops

Two shapes of control that the operations on buffers and scenes share: a computation that may fail
followed by another one, and a loop over the first `n` numbers.
-/

namespace SceneCanvas

/-- What comes after a computation that may fail succeeds only from a value of it. -/
theorem bind_eq_ok_iff {ε α β : Type} {e : Except ε α} {f : α → Except ε β} {b : β} :
    (e >>= f) = .ok b ↔ ∃ a, e = .ok a ∧ f a = .ok b := by
  cases e with
  | error err => simp [bind, Except.bind]
  | ok a => simp [bind, Except.bind]

/-- Two loops that start related and whose steps keep them related end related. -/
theorem fold_related {α β : Type} {R : α → β → Prop} (n : Nat) {f : (i : Nat) → i < n → α → α}
    {g : (i : Nat) → i < n → β → β} {a : α} {b : β} (hstart : R a b)
    (hstep : ∀ i hi x y, R x y → R (f i hi x) (g i hi y)) : R (n.fold f a) (n.fold g b) := by
  induction n with
  | zero => exact hstart
  | succ n ih =>
    rw [Nat.fold_succ, Nat.fold_succ]
    exact hstep n _ _ _ (ih fun i hi => hstep i (Nat.lt_succ_of_lt hi))

end SceneCanvas
