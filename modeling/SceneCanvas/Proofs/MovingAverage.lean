import Mathlib.Algebra.BigOperators.Field
import Mathlib.Algebra.BigOperators.Intervals
import Mathlib.Algebra.Order.BigOperators.Group.Finset
import Mathlib.Algebra.Order.Field.Basic
import Mathlib.Tactic.Abel
import Mathlib.Tactic.Positivity
import SceneCanvas.Blur.Box

/-!
# Moving averages of endless lines

On a line of samples that goes on for ever in both directions nothing is cut off, and a moving
average is a convolution. Several of them, one after the other, are a convolution with a single
kernel, which shows when they are applied to a line that is one at the origin and zero elsewhere.

* `BoxPass.averageAll_eq_sum`: the averages of a line are its weighted sums under the kernel.
* `BoxPass.kernel_nonneg`, `BoxPass.sum_kernel` and `BoxPass.kernel_eq_zero`: the weights are not
  negative, come to one, and end where the windows do.
* `BoxPass.kernel_neg`: they are symmetric if the windows are balanced, that is, if turned over they
  are the same in another order. `BoxPass.symmetricWeights_kernel` sums this up.
* `BoxPass.balanced_triple`: this is so for the three windows of a box of any size, since an even
  box leans left once and right once.
-/

namespace SceneCanvas.BoxPass

/-- The mean of the samples under the window, which starts `left` samples before `x`. -/
def average (pass : BoxPass) (f : ℤ → ℚ) (x : ℤ) : ℚ :=
  (∑ j ∈ Finset.range pass.size, f (x - pass.left + j)) / pass.size

/-- One moving average after the other. -/
def averageAll (passes : List BoxPass) (f : ℤ → ℚ) : ℤ → ℚ :=
  passes.foldl (fun f pass => pass.average f) f

/-- How far the windows reach to the left, all in all. -/
def leftReach (passes : List BoxPass) : Nat := (passes.map left).sum

/-- How far the windows reach to the right, all in all. -/
def rightReach (passes : List BoxPass) : Nat :=
  (passes.map fun pass => pass.size - 1 - pass.left).sum

theorem averageAll_cons (pass : BoxPass) (passes : List BoxPass) (f : ℤ → ℚ) :
    averageAll (pass :: passes) f = averageAll passes (pass.average f) := rfl

theorem leftReach_cons (pass : BoxPass) (passes : List BoxPass) :
    leftReach (pass :: passes) = pass.left + leftReach passes := by
  rw [leftReach, List.map_cons, List.sum_cons, leftReach]

theorem rightReach_cons (pass : BoxPass) (passes : List BoxPass) :
    rightReach (pass :: passes) = (pass.size - 1 - pass.left) + rightReach passes := by
  rw [rightReach, List.map_cons, List.sum_cons, rightReach]

/-! ### One window -/

section Window

variable {pass : BoxPass} {f g : ℤ → ℚ}

/-- Only the samples under the window count. -/
theorem average_congr (hpass : pass.left < pass.size) {x : ℤ}
    (h : ∀ z, x - pass.left ≤ z → z ≤ x + (pass.size - 1 - pass.left : Nat) → f z = g z) :
    pass.average f x = pass.average g x := by
  rw [average, average]
  refine congrArg (· / (pass.size : ℚ)) (Finset.sum_congr rfl fun j hj => h _ (by omega) ?_)
  rw [Finset.mem_range] at hj
  omega

theorem average_const (hpass : pass.left < pass.size) (c : ℚ) :
    pass.average (fun _ => c) = fun _ => c := by
  have hsize : (pass.size : ℚ) ≠ 0 := Nat.cast_ne_zero.mpr (Nat.ne_zero_of_lt hpass)
  funext x
  rw [average, Finset.sum_const, Finset.card_range, nsmul_eq_mul, mul_div_cancel_left₀ _ hsize]

theorem average_nonneg (hf : ∀ x, 0 ≤ f x) (x : ℤ) : 0 ≤ pass.average f x :=
  div_nonneg (Finset.sum_nonneg fun _ _ => hf _) (Nat.cast_nonneg _)

/-- Averages of a line that is moved are those of the line, moved. -/
theorem average_shift (t : ℤ) :
    pass.average (fun z => f (z + t)) = fun x => pass.average f (x + t) := by
  funext x
  rw [average, average]
  refine congrArg (· / (pass.size : ℚ)) (Finset.sum_congr rfl fun j _ => congrArg f ?_)
  abel

theorem average_sum (s : Finset ℤ) (c : ℤ → ℚ) (f : ℤ → ℤ → ℚ) :
    pass.average (fun z => ∑ i ∈ s, c i * f i z)
      = fun x => ∑ i ∈ s, c i * pass.average (f i) x := by
  funext x
  simp only [average]
  rw [Finset.sum_comm, Finset.sum_div]
  refine Finset.sum_congr rfl fun i _ => ?_
  rw [← Finset.mul_sum, mul_div_assoc]

/-- The order of two averages does not matter. -/
theorem average_comm (pass pass' : BoxPass) (f : ℤ → ℚ) :
    pass.average (pass'.average f) = pass'.average (pass.average f) := by
  funext x
  simp only [average]
  rw [← Finset.sum_div, ← Finset.sum_div, div_div, div_div, mul_comm (pass.size : ℚ),
    Finset.sum_comm]
  refine congrArg (· / ((pass'.size : ℚ) * pass.size)) (Finset.sum_congr rfl fun i _ =>
    Finset.sum_congr rfl fun j _ => congrArg f ?_)
  abel

/-- The window, turned over. -/
def reflect (pass : BoxPass) : BoxPass := ⟨pass.size, pass.size - 1 - pass.left⟩

/-- A line that is turned over has the averages of the window that is turned over. -/
theorem average_reflect (hpass : pass.left < pass.size) (f : ℤ → ℚ) :
    pass.average (fun z => f (-z)) = fun x => pass.reflect.average f (-x) := by
  funext x
  have hsum : ∑ j ∈ Finset.range pass.size, f (-(x - pass.left + j))
      = ∑ j ∈ Finset.range pass.size, f (-x - (pass.size - 1 - pass.left : Nat) + j) := by
    rw [← Finset.sum_range_reflect]
    refine Finset.sum_congr rfl fun j hj => congrArg f ?_
    rw [Finset.mem_range] at hj
    omega
  exact congrArg (· / (pass.size : ℚ)) hsum

end Window

/-! ### One window after the other -/

section Windows

variable {passes : List BoxPass} {f g : ℤ → ℚ}

/-- Only the samples within the reach of the windows count. -/
theorem averageAll_congr (hpasses : ∀ pass ∈ passes, pass.left < pass.size) {x : ℤ}
    (h : ∀ z, x - leftReach passes ≤ z → z ≤ x + rightReach passes → f z = g z) :
    averageAll passes f x = averageAll passes g x := by
  induction passes generalizing f g with
  | nil => exact h x (by simp [leftReach]) (by simp [rightReach])
  | cons pass passes ih =>
    rw [List.forall_mem_cons] at hpasses
    rw [leftReach_cons, rightReach_cons] at h
    rw [averageAll_cons, averageAll_cons]
    refine ih hpasses.2 fun z hlow hhigh => average_congr hpasses.1 fun y hy hy' => h y ?_ ?_
    · omega
    · omega

theorem averageAll_const (hpasses : ∀ pass ∈ passes, pass.left < pass.size) (c : ℚ) :
    averageAll passes (fun _ => c) = fun _ => c := by
  induction passes with
  | nil => rfl
  | cons pass passes ih =>
    rw [List.forall_mem_cons] at hpasses
    rw [averageAll_cons, average_const hpasses.1, ih hpasses.2]

theorem averageAll_nonneg (hf : ∀ x, 0 ≤ f x) (x : ℤ) : 0 ≤ averageAll passes f x := by
  induction passes generalizing f with
  | nil => exact hf x
  | cons pass passes ih => exact ih (average_nonneg hf)

theorem averageAll_shift (passes : List BoxPass) (f : ℤ → ℚ) (t : ℤ) :
    averageAll passes (fun z => f (z + t)) = fun x => averageAll passes f (x + t) := by
  induction passes generalizing f with
  | nil => rfl
  | cons pass passes ih => rw [averageAll_cons, average_shift, ih, averageAll_cons]

theorem averageAll_sum (s : Finset ℤ) (c : ℤ → ℚ) (f : ℤ → ℤ → ℚ) :
    averageAll passes (fun z => ∑ i ∈ s, c i * f i z)
      = fun x => ∑ i ∈ s, c i * averageAll passes (f i) x := by
  induction passes generalizing f with
  | nil => rfl
  | cons pass passes ih =>
    rw [averageAll_cons, average_sum, ih]
    rfl

theorem averageAll_perm {passes' : List BoxPass} (h : passes.Perm passes') (f : ℤ → ℚ) :
    averageAll passes f = averageAll passes' f :=
  h.foldl_eq' (fun pass _ pass' _ f => average_comm pass' pass f) f

theorem averageAll_reflect (hpasses : ∀ pass ∈ passes, pass.left < pass.size) (f : ℤ → ℚ) :
    averageAll passes (fun z => f (-z)) = fun x => averageAll (passes.map reflect) f (-x) := by
  induction passes generalizing f with
  | nil => rfl
  | cons pass passes ih =>
    rw [List.forall_mem_cons] at hpasses
    rw [averageAll_cons, average_reflect hpasses.1, ih hpasses.2, List.map_cons]
    rfl

end Windows

/-! ### Balanced windows -/

/-- Windows that hold the sample they are for, and that are the same in another order when they are
all turned over. -/
structure Balanced (passes : List BoxPass) : Prop where
  left_lt_size : ∀ pass ∈ passes, pass.left < pass.size
  reflect_perm : (passes.map reflect).Perm passes

/-- Balanced windows reach as far to the right as to the left. -/
theorem Balanced.rightReach_eq {passes : List BoxPass} (hpasses : Balanced passes) :
    rightReach passes = leftReach passes := by
  have hsum := (hpasses.reflect_perm.map left).sum_eq
  rw [List.map_map] at hsum
  exact hsum

/-! ### The kernel -/

private theorem natCast_sub_injective (l : Nat) : Function.Injective fun k : Nat => (k : ℤ) - l :=
  fun _ _ h => Int.ofNat_inj.mp (sub_left_inj.mp h)

/-- The whole numbers from `l` below zero to `r` above it. -/
def around (l r : Nat) : Finset ℤ :=
  (Finset.range (l + r + 1)).map ⟨_, natCast_sub_injective l⟩

theorem mem_around {l r : Nat} {i : ℤ} : i ∈ around l r ↔ -(l : ℤ) ≤ i ∧ i ≤ r := by
  simp only [around, Finset.mem_map, Finset.mem_range, Function.Embedding.coeFn_mk]
  constructor
  · rintro ⟨k, hk, rfl⟩
    omega
  · rintro ⟨hlow, hhigh⟩
    exact ⟨(i + l).toNat, by omega, by omega⟩

/-- The line that is one at the origin and zero elsewhere. -/
def impulse (z : ℤ) : ℚ := if z = 0 then 1 else 0

/-- The weight that the sample `i` places to the right has in the averages. -/
def kernel (passes : List BoxPass) (i : ℤ) : ℚ := averageAll passes impulse (-i)

section Kernel

variable {passes : List BoxPass}

/-- **Averages are weighted sums.** -/
theorem averageAll_eq_sum (hpasses : ∀ pass ∈ passes, pass.left < pass.size) (f : ℤ → ℚ) (x : ℤ) :
    averageAll passes f x
      = ∑ i ∈ around (leftReach passes) (rightReach passes), kernel passes i * f (x + i) := by
  -- within reach, the line is a sum of impulses
  have hline : ∀ z, x - leftReach passes ≤ z → z ≤ x + rightReach passes →
      f z = ∑ i ∈ around (leftReach passes) (rightReach passes),
        f (x + i) * impulse (z + -(x + i)) := by
    intro z hlow hhigh
    rw [Finset.sum_eq_single (z - x)]
    · rw [add_sub_cancel, add_neg_cancel, impulse, if_pos rfl, mul_one]
    · intro i _ hi
      rw [impulse, if_neg (by omega), mul_zero]
    · intro hmem
      rw [mem_around] at hmem
      omega
  rw [averageAll_congr hpasses hline, averageAll_sum]
  refine Finset.sum_congr rfl fun i _ => ?_
  have horigin : x + -(x + i) = -i := by abel
  simp only [averageAll_shift, horigin]
  rw [kernel, mul_comm]

theorem kernel_nonneg (i : ℤ) : 0 ≤ kernel passes i := by
  refine averageAll_nonneg (fun z => ?_) (-i)
  rw [impulse]
  positivity

theorem sum_kernel (hpasses : ∀ pass ∈ passes, pass.left < pass.size) :
    ∑ i ∈ around (leftReach passes) (rightReach passes), kernel passes i = 1 := by
  have hone := averageAll_eq_sum hpasses (fun _ => 1) 0
  rw [averageAll_const hpasses] at hone
  simpa only [mul_one] using hone.symm

/-- The weights end where the windows do. -/
theorem kernel_eq_zero (hpasses : ∀ pass ∈ passes, pass.left < pass.size) {i : ℤ}
    (hi : i < -leftReach passes ∨ (rightReach passes : ℤ) < i) : kernel passes i = 0 := by
  have hzero : averageAll passes impulse (-i) = averageAll passes (fun _ => 0) (-i) := by
    refine averageAll_congr hpasses fun z hlow hhigh => if_neg ?_
    omega
  rw [kernel, hzero, averageAll_const hpasses]

/-- **Symmetry**: balanced windows have a symmetric kernel. -/
theorem kernel_neg (hpasses : Balanced passes) (i : ℤ) : kernel passes (-i) = kernel passes i := by
  have himpulse : (fun z => impulse (-z)) = impulse := by
    funext z
    rw [impulse, impulse, if_congr neg_eq_zero rfl rfl]
  have hturned := averageAll_reflect hpasses.left_lt_size impulse
  rw [himpulse, averageAll_perm hpasses.reflect_perm impulse] at hturned
  rw [kernel, kernel, neg_neg]
  exact congrFun hturned i

/-- Weights around the origin of which those beyond `r` are zero: none is negative, they come to
one, and to the left they are what they are to the right. -/
structure SymmetricWeights (weight : ℤ → ℚ) (r : Nat) : Prop where
  nonneg : ∀ i, 0 ≤ weight i
  neg : ∀ i, weight (-i) = weight i
  eq_zero : ∀ i, (r : ℤ) < |i| → weight i = 0
  sum_eq_one : ∑ i ∈ around r r, weight i = 1

/-- **The kernel of balanced windows.** -/
theorem symmetricWeights_kernel (hpasses : Balanced passes) :
    SymmetricWeights (kernel passes) (leftReach passes) where
  nonneg := kernel_nonneg
  neg := kernel_neg hpasses
  eq_zero i hi := by
    refine kernel_eq_zero hpasses.left_lt_size ?_
    rw [hpasses.rightReach_eq]
    rw [lt_abs] at hi
    omega
  sum_eq_one := by
    have hone := sum_kernel hpasses.left_lt_size
    rwa [hpasses.rightReach_eq] at hone

end Kernel

/-! ### The three windows of a box -/

section Triple

variable {d : Nat}

theorem left_lt_size_of_mem_triple (hd : 1 ≤ d) {pass : BoxPass} (h : pass ∈ triple d) :
    pass.left < pass.size := by
  rw [triple] at h
  split at h
  next =>
    simp only [List.mem_cons, List.not_mem_nil, or_false] at h
    rcases h with rfl | rfl | rfl <;> simp only <;> omega
  next =>
    simp only [List.mem_cons, List.not_mem_nil, or_false] at h
    rcases h with rfl | rfl | rfl <;> simp only <;> omega

/-- Turned over, the windows of a box are the same: an odd one is centred, and an even one leans
left once and right once. -/
theorem map_reflect_triple (hd : 1 ≤ d) : ((triple d).map reflect).Perm (triple d) := by
  rw [triple]
  split
  next hodd =>
    have hcentred : reflect ⟨d, d / 2⟩ = ⟨d, d / 2⟩ := congrArg (mk _) (by simp only; omega)
    rw [List.map_cons, List.map_cons, List.map_singleton, hcentred]
  next heven =>
    have hleft : reflect ⟨d, d / 2⟩ = ⟨d, d / 2 - 1⟩ := congrArg (mk _) (by simp only; omega)
    have hright : reflect ⟨d, d / 2 - 1⟩ = ⟨d, d / 2⟩ := congrArg (mk _) (by simp only; omega)
    have hcentred : reflect ⟨d + 1, d / 2⟩ = ⟨d + 1, d / 2⟩ := congrArg (mk _) (by simp only; omega)
    rw [List.map_cons, List.map_cons, List.map_singleton, hleft, hright, hcentred]
    exact .swap ..

theorem balanced_triple (hd : 1 ≤ d) : Balanced (triple d) :=
  ⟨fun _ => left_lt_size_of_mem_triple hd, map_reflect_triple hd⟩

end Triple

end SceneCanvas.BoxPass
