import Mathlib.Algebra.BigOperators.Group.Finset.Basic
import Mathlib.Data.List.Perm.Subperm
import Mathlib.Tactic.NormNum
import Mathlib.Tactic.Ring
import SceneCanvas.Proofs.MovingAverage

/-!
# Moving averages of lines in a buffer

A pass reads the lines of a buffer through running sums and writes their averages into another one.
Computed exactly, it writes to every place once, whatever was there before, and what it writes is
the mean of the samples under the window, samples beside the line counting as zero.

* `BoxPass.sum_onLine`: the sum under a window is a difference of running sums, since these stop
  growing beside the line.
* `BoxPass.linesOnto_eq_foldl`: a pass is the list of its writes, one after the other.
* `BoxPass.places_perm`: every place of the buffer is written to once.
* `BoxPass.sampleOf_foldl_lines`: any number of passes, where no window has been cut off. On a
  grown line that is everywhere the old line was (`BoxPass.sampleOf_foldl_lines_grown`).
-/

namespace SceneCanvas

/-! ### Writes -/

section Writes

variable {α : Type}

/-- Write a value to a place. -/
def put (a : Array α) (write : Nat × α) : Array α := a.setIfInBounds write.1 write.2

@[simp] theorem size_foldl_put (writes : List (Nat × α)) (dst : Array α) :
    (writes.foldl put dst).size = dst.size := by
  induction writes generalizing dst with
  | nil => rfl
  | cons write writes ih => rw [List.foldl_cons, ih, put, Array.size_setIfInBounds]

theorem getElem?_foldl_put_of_notMem {writes : List (Nat × α)} {k : Nat}
    (hk : k ∉ writes.map Prod.fst) (dst : Array α) : (writes.foldl put dst)[k]? = dst[k]? := by
  induction writes generalizing dst with
  | nil => rfl
  | cons write writes ih =>
    rw [List.map_cons, List.mem_cons, not_or] at hk
    rw [List.foldl_cons, ih hk.2, put, Array.getElem?_setIfInBounds_ne (Ne.symm hk.1)]

/-- A place that is written to once holds what was written. -/
theorem getElem?_foldl_put {writes : List (Nat × α)} (hnodup : (writes.map Prod.fst).Nodup)
    {k : Nat} {v : α} (hmem : (k, v) ∈ writes) {dst : Array α} (hk : k < dst.size) :
    (writes.foldl put dst)[k]? = some v := by
  induction writes generalizing dst with
  | nil => cases hmem
  | cons write writes ih =>
    rw [List.map_cons, List.nodup_cons] at hnodup
    rw [List.foldl_cons]
    rcases List.mem_cons.mp hmem with rfl | hmem
    · rw [getElem?_foldl_put_of_notMem hnodup.1, put, Array.getElem?_setIfInBounds_self, if_pos hk]
    · exact ih hnodup.2 hmem (by rwa [put, Array.size_setIfInBounds])

/-- A counted loop goes through the numbers in order. -/
theorem fold_eq_foldl_range {β : Type} (n : Nat) (f : β → Nat → β) (b : β) :
    n.fold (fun i _ b => f b i) b = (List.range n).foldl f b := by
  induction n with
  | zero => rfl
  | succ n ih =>
    rw [Nat.fold_succ, ih, List.range_succ, List.foldl_append, List.foldl_cons, List.foldl_nil]

end Writes

namespace BoxPass

/-! ### Running sums -/

theorem runningSums_spec (n : Nat) (sample : Nat → ℚ) :
    (runningSums n sample).size = n + 1 ∧
      ∀ k ≤ n, (runningSums n sample).getD k 0.0 = ∑ i ∈ Finset.range k, sample i := by
  induction n with
  | zero =>
    have hzero : (0.0 : ℚ) = 0 := by norm_num
    refine ⟨rfl, fun k hk => ?_⟩
    rw [Nat.le_zero.mp hk, Finset.sum_range_zero]
    exact hzero
  | succ n ih =>
    obtain ⟨hsize, hsums⟩ := ih
    have hpush : runningSums (n + 1) sample
        = (runningSums n sample).push ((runningSums n sample).getD n 0.0 + sample n) := by
      rw [runningSums, Nat.fold_succ]
      rfl
    rw [hpush]
    refine ⟨by rw [Array.size_push, hsize], fun k hk => ?_⟩
    rw [Array.getD_eq_getD_getElem?, Array.getElem?_push, hsize]
    by_cases hlast : k = n + 1
    · rw [if_pos hlast, Option.getD_some, hsums n (Nat.le_refl n), hlast, Finset.sum_range_succ]
    · rw [if_neg hlast, ← Array.getD_eq_getD_getElem?, hsums k (by omega)]

/-- A line of `n` samples that goes on for ever with zeros. -/
def onLine (n : Nat) (sample : Nat → ℚ) (x : ℤ) : ℚ :=
  if 0 ≤ x ∧ x < n then sample x.toNat else 0

theorem onLine_natCast {n i : Nat} (hi : i < n) (sample : Nat → ℚ) :
    onLine n sample i = sample i := by
  rw [onLine, if_pos ⟨Int.natCast_nonneg i, Int.ofNat_lt.mpr hi⟩, Int.toNat_natCast]

/-- **The sum under a window** is a difference of running sums. -/
theorem sum_onLine (n : Nat) (sample : Nat → ℚ) (first : ℤ) (size : Nat) :
    ∑ j ∈ Finset.range size, onLine n sample (first + j)
      = ∑ i ∈ Finset.range (min (first + size).toNat n), sample i
        - ∑ i ∈ Finset.range (min first.toNat n), sample i := by
  -- the running sums up to `x` grow by the sample at `x`, and not at all beside the line
  have hstep (x : ℤ) : onLine n sample x = ∑ i ∈ Finset.range (min (x + 1).toNat n), sample i
      - ∑ i ∈ Finset.range (min x.toNat n), sample i := by
    by_cases hx : 0 ≤ x ∧ x < n
    · have hsucc : min (x + 1).toNat n = min x.toNat n + 1 := by omega
      have hmin : min x.toNat n = x.toNat := by omega
      rw [onLine, if_pos hx, hsucc, hmin, Finset.sum_range_succ, add_sub_cancel_left]
    · have hsame : min (x + 1).toNat n = min x.toNat n := by omega
      rw [onLine, if_neg hx, hsame, sub_self]
  have htelescope := Finset.sum_range_sub
    (fun j : Nat => ∑ i ∈ Finset.range (min (first + j).toNat n), sample i) size
  rw [Nat.cast_zero, add_zero] at htelescope
  rw [← htelescope]
  refine Finset.sum_congr rfl fun j _ => ?_
  rw [hstep, Nat.cast_succ, add_assoc]

/-! ### One pass -/

/-- What a channel of a line holds: sample `i` of line `l` lies at `l * lineStep + i * step`, the
channels side by side. -/
def sampleOf (a : Array ℚ) (lineStep step l c i : Nat) : ℚ :=
  a.getD (l * lineStep + c + i * step) 0.0

/-- The mean under the window at sample `i` of a channel of a line. -/
def meanAt (pass : BoxPass) (src : Array ℚ) (n lineStep step l c i : Nat) : ℚ :=
  pass.average (onLine n (sampleOf src lineStep step l c)) i

/-- The writes of a pass in order: each place of a line, and the mean that is written there. -/
def writes (pass : BoxPass) (src : Array ℚ) (count n lineStep step : Nat) : List (Nat × ℚ) :=
  (List.range count).flatMap fun l => (List.range 4).flatMap fun c =>
    (List.range n).map fun i =>
      (l * lineStep + c + i * step, pass.meanAt src n lineStep step l c i)

/-- A pass that writes into a given buffer. -/
def linesOnto (pass : BoxPass) (src dst : Array ℚ) (count n lineStep step : Nat) : Array ℚ :=
  count.fold (fun l _ dst =>
    Nat.fold 4 (fun c _ dst => pass.line src dst (l * lineStep + c) step n) dst) dst

theorem lines_eq_linesOnto (pass : BoxPass) (src : Array ℚ) (count n lineStep step : Nat) :
    pass.lines src count n lineStep step
      = pass.linesOnto src (Array.replicate src.size 0.0) count n lineStep step := rfl

section OnePass

variable (pass : BoxPass) (src dst : Array ℚ) (count n lineStep step : Nat)

/-- The averages of one channel of a line are written one after the other. -/
theorem line_eq_foldl (l c : Nat) :
    pass.line src dst (l * lineStep + c) step n
      = ((List.range n).map fun i =>
          (l * lineStep + c + i * step, pass.meanAt src n lineStep step l c i)).foldl put dst := by
  obtain ⟨-, hsums⟩ := runningSums_spec n (sampleOf src lineStep step l c)
  have hshare : (1.0 : ℚ) / Scalar.ofNat pass.size = 1 / pass.size := by
    refine congrArg (· / (pass.size : ℚ)) ?_
    norm_num
  rw [List.foldl_map, ← fold_eq_foldl_range n fun a i =>
    put a (l * lineStep + c + i * step, pass.meanAt src n lineStep step l c i)]
  refine congrArg (fun f => n.fold f dst) ?_
  funext i hi acc
  refine congrArg (acc.setIfInBounds (l * lineStep + c + i * step)) ?_
  have hlast : ((i : ℤ) - pass.left + pass.size).toNat = i + pass.size - pass.left := by omega
  have hfirst : min ((i : ℤ) - pass.left).toNat n = i - pass.left := by omega
  rw [hshare, ← div_eq_mul_one_div, meanAt, average, sum_onLine, hlast, hfirst,
    ← hsums (min (i + pass.size - pass.left) n) (Nat.min_le_right _ _),
    ← hsums (i - pass.left) (by omega)]
  rfl

/-- **A pass is the list of its writes.** -/
theorem linesOnto_eq_foldl :
    pass.linesOnto src dst count n lineStep step
      = (pass.writes src count n lineStep step).foldl put dst := by
  rw [linesOnto, writes, List.foldl_flatMap]
  refine (fold_eq_foldl_range count (fun dst l => Nat.fold 4 (fun c _ dst =>
    pass.line src dst (l * lineStep + c) step n) dst) dst).trans ?_
  refine congrArg (fun f => (List.range count).foldl f dst) ?_
  funext acc l
  rw [List.foldl_flatMap]
  refine (fold_eq_foldl_range 4 (fun dst c =>
    pass.line src dst (l * lineStep + c) step n) acc).trans ?_
  simp only [line_eq_foldl]

end OnePass

/-! ### The lines of a buffer -/

/-- How `count` lines of `n` pixels fill a buffer: as rows, or side by side as columns. -/
inductive Layout (count n : Nat) : Nat → Nat → Prop
  | rows : Layout count n (n * 4) 4
  | columns : Layout count n 4 (count * 4)

section Lines

variable {count n lineStep step : Nat}

/-- Every place of the buffer belongs to a sample of a line. -/
theorem Layout.exists_sample (layout : Layout count n lineStep step) {k : Nat}
    (hk : k < 4 * (count * n)) :
    ∃ l < count, ∃ c < 4, ∃ i < n, l * lineStep + c + i * step = k := by
  have hpixel : k / 4 < count * n := by omega
  have hchannel : k % 4 < 4 := Nat.mod_lt k (by decide)
  have hn : 0 < n := Nat.pos_of_mul_pos_left (Nat.zero_lt_of_lt hpixel)
  have hcount : 0 < count := Nat.pos_of_mul_pos_right (Nat.zero_lt_of_lt hpixel)
  cases layout with
  | rows =>
    refine ⟨k / 4 / n, Nat.div_lt_of_lt_mul (Nat.mul_comm count n ▸ hpixel), k % 4, hchannel,
      k / 4 % n, Nat.mod_lt _ hn, ?_⟩
    calc k / 4 / n * (n * 4) + k % 4 + k / 4 % n * 4
        = (n * (k / 4 / n) + k / 4 % n) * 4 + k % 4 := by ring
      _ = k := by rw [Nat.div_add_mod, Nat.mul_comm, Nat.div_add_mod]
  | columns =>
    refine ⟨k / 4 % count, Nat.mod_lt _ hcount, k % 4, hchannel, k / 4 / count,
      Nat.div_lt_of_lt_mul hpixel, ?_⟩
    calc k / 4 % count * 4 + k % 4 + k / 4 / count * (count * 4)
        = (count * (k / 4 / count) + k / 4 % count) * 4 + k % 4 := by ring
      _ = k := by rw [Nat.div_add_mod, Nat.mul_comm, Nat.div_add_mod]

variable (pass : BoxPass) {src dst : Array ℚ}

theorem mem_writes {write : Nat × ℚ} :
    write ∈ pass.writes src count n lineStep step ↔ ∃ l < count, ∃ c < 4, ∃ i < n,
      (l * lineStep + c + i * step, pass.meanAt src n lineStep step l c i) = write := by
  simp only [writes, List.mem_flatMap, List.mem_map, List.mem_range]

theorem length_writes (src : Array ℚ) :
    (pass.writes src count n lineStep step).length = count * (4 * n) := by
  simp only [writes, List.length_flatMap, List.length_map, List.length_range, List.map_const',
    List.sum_replicate, nsmul_eq_mul, Nat.cast_id]

/-- **Every place is written to once.** -/
theorem places_perm (layout : Layout count n lineStep step) (src : Array ℚ) :
    ((pass.writes src count n lineStep step).map Prod.fst).Perm
      (List.range (4 * (count * n))) := by
  have hsubset : List.range (4 * (count * n)) ⊆
      (pass.writes src count n lineStep step).map Prod.fst := by
    intro k hk
    obtain ⟨l, hl, c, hc, i, hi, hplace⟩ := layout.exists_sample (List.mem_range.mp hk)
    exact List.mem_map.mpr ⟨_, (mem_writes pass).mpr ⟨l, hl, c, hc, i, hi, rfl⟩, hplace⟩
  have hlength : ((pass.writes src count n lineStep step).map Prod.fst).length
      = (List.range (4 * (count * n))).length := by
    rw [List.length_map, length_writes, List.length_range, Nat.mul_left_comm]
  exact (List.nodup_range.subperm hsubset).perm_of_length_le hlength.le |>.symm

/-- Each sample holds the mean that was written for it. -/
theorem getElem?_linesOnto (layout : Layout count n lineStep step) (src : Array ℚ)
    (hdst : dst.size = 4 * (count * n)) {l c i : Nat} (hl : l < count) (hc : c < 4) (hi : i < n) :
    (pass.linesOnto src dst count n lineStep step)[l * lineStep + c + i * step]?
      = some (pass.meanAt src n lineStep step l c i) := by
  have hperm := places_perm pass layout src
  have hmem : (l * lineStep + c + i * step, pass.meanAt src n lineStep step l c i)
      ∈ pass.writes src count n lineStep step :=
    (mem_writes pass).mpr ⟨l, hl, c, hc, i, hi, rfl⟩
  have hplace := hperm.mem_iff.mp (List.mem_map_of_mem hmem)
  rw [linesOnto_eq_foldl]
  refine getElem?_foldl_put (hperm.nodup_iff.mpr List.nodup_range) hmem ?_
  rw [hdst]
  exact List.mem_range.mp hplace

theorem size_linesOnto (src dst : Array ℚ) :
    (pass.linesOnto src dst count n lineStep step).size = dst.size := by
  rw [linesOnto_eq_foldl, size_foldl_put]

@[simp] theorem size_lines (src : Array ℚ) :
    (pass.lines src count n lineStep step).size = src.size := by
  rw [lines_eq_linesOnto, size_linesOnto, Array.size_replicate]

/-- What was in a buffer before a pass wrote into it does not matter. -/
theorem linesOnto_eq_lines (layout : Layout count n lineStep step)
    (hsrc : src.size = 4 * (count * n)) (hdst : dst.size = src.size) :
    pass.linesOnto src dst count n lineStep step = pass.lines src count n lineStep step := by
  refine Array.ext_getElem? fun k => ?_
  rw [lines_eq_linesOnto]
  by_cases hk : k < 4 * (count * n)
  · obtain ⟨l, hl, c, hc, i, hi, rfl⟩ := layout.exists_sample hk
    rw [getElem?_linesOnto pass layout src (hdst.trans hsrc) hl hc hi,
      getElem?_linesOnto pass layout src (by rw [Array.size_replicate, hsrc]) hl hc hi]
  · rw [Array.getElem?_eq_none (by rw [size_linesOnto]; omega),
      Array.getElem?_eq_none (by rw [size_linesOnto, Array.size_replicate]; omega)]

theorem sampleOf_lines (layout : Layout count n lineStep step) (hsrc : src.size = 4 * (count * n))
    {l c i : Nat} (hl : l < count) (hc : c < 4) (hi : i < n) :
    sampleOf (pass.lines src count n lineStep step) lineStep step l c i
      = pass.meanAt src n lineStep step l c i := by
  rw [sampleOf, Array.getD_eq_getD_getElem?, lines_eq_linesOnto,
    getElem?_linesOnto pass layout src (by rw [Array.size_replicate, hsrc]) hl hc hi,
    Option.getD_some]

end Lines

/-! ### Several passes -/

section Passes

variable {count n lineStep step : Nat} {passes : List BoxPass}

theorem size_foldl_lines (passes : List BoxPass) (b : Array ℚ) (count n lineStep step : Nat) :
    (passes.foldl (fun b pass => pass.lines b count n lineStep step) b).size = b.size := by
  induction passes generalizing b with
  | nil => rfl
  | cons pass passes ih => rw [List.foldl_cons, ih, size_lines]

/-- **Passes along a line.** As long as no window has reached beyond the samples that are known to
go on as `f`, the averages of the line are those of `f`. -/
theorem sampleOf_foldl_lines (layout : Layout count n lineStep step)
    (hpasses : ∀ pass ∈ passes, pass.left < pass.size) {b : Array ℚ}
    (hb : b.size = 4 * (count * n)) {l c : Nat} (hl : l < count) (hc : c < 4) (f : ℤ → ℚ)
    (first last : Nat) (hlast : last ≤ n)
    (hf : ∀ i : Nat, first ≤ i → i < last → sampleOf b lineStep step l c i = f i) {x : Nat}
    (hleft : first + leftReach passes ≤ x) (hright : x + rightReach passes < last) :
    sampleOf (passes.foldl (fun b pass => pass.lines b count n lineStep step) b)
      lineStep step l c x = averageAll passes f x := by
  induction passes generalizing b f first last with
  | nil => exact hf x hleft hright
  | cons pass passes ih =>
    rw [List.forall_mem_cons] at hpasses
    rw [leftReach_cons] at hleft
    rw [rightReach_cons] at hright
    rw [List.foldl_cons, averageAll_cons]
    refine ih hpasses.2 (by rw [size_lines, hb]) (pass.average f) (first + pass.left)
      (last - (pass.size - 1 - pass.left)) (by omega) (fun i hi hi' => ?_) (by omega) (by omega)
    rw [sampleOf_lines pass layout hb hl hc (by omega), meanAt]
    -- the window at `i` lies between `first` and `last`
    refine average_congr hpasses.1 fun z hlow hhigh => ?_
    obtain ⟨k, rfl⟩ := Int.eq_ofNat_of_zero_le (show 0 ≤ z by omega)
    rw [onLine_natCast (by omega), hf k (by omega) (by omega)]

/-- Passes along a line that has been grown by the reach of the windows: where the old line was,
they average a line that goes on for ever. -/
theorem sampleOf_foldl_lines_grown {pad : Nat} (layout : Layout count (n + 2 * pad) lineStep step)
    (hpasses : ∀ pass ∈ passes, pass.left < pass.size) (hleft : leftReach passes ≤ pad)
    (hright : rightReach passes ≤ pad) {b : Array ℚ} (hb : b.size = 4 * (count * (n + 2 * pad)))
    {l c : Nat} (hl : l < count) (hc : c < 4) (f : ℤ → ℚ)
    (hf : ∀ i < n + 2 * pad, sampleOf b lineStep step l c i = f (i - pad)) {x : Nat} (hx : x < n) :
    sampleOf (passes.foldl (fun b pass => pass.lines b count (n + 2 * pad) lineStep step) b)
      lineStep step l c (x + pad) = averageAll passes f x := by
  have hmoved := congrFun (averageAll_shift passes f (-pad)) (x + pad)
  rw [add_neg_cancel_right, ← Nat.cast_add] at hmoved
  rw [← hmoved]
  exact sampleOf_foldl_lines layout hpasses hb hl hc _ 0 (n + 2 * pad) (Nat.le_refl _)
    (fun i _ hi => hf i hi) (by omega) (by omega)

end Passes

end BoxPass

end SceneCanvas
