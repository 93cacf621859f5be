import SceneCanvas.Proofs.ExactBlur

/-!
# The weight of quantised kernels

A kernel is made of weights that fall from the middle to both ends. Every weight is rounded to its
share of the unit, and the middle one then gives or takes what the others leave, but it cannot take
more than it has. So the kernel weighs a whole unit as long as the weights beside the middle do not
exceed it. Each of them is at most half of one too large, and to be that each share has to lie near
a half, so it takes many taps of about the same weight to exceed the unit.

* `Kernel.getD_quantize` says what every weight becomes.
* `Kernel.quantize_weight` bounds what the kernel weighs, and says what becomes of the brightness of
  a picture: it is never less inside than it was.
-/

namespace SceneCanvas

namespace Kernel

/-- Weights around a middle one, to both sides of which they fall alike. -/
structure IsBell (weights : Array ℚ) (radius : Nat) : Prop where
  size_eq : weights.size = 2 * radius + 1
  pos : ∀ w ∈ weights, 0 < w
  symmetric : weights.reverse = weights
  falling : ∀ i < radius, weights.getD i 0 ≤ weights.getD (i + 1) 0

/-- What the `i`-th weight is in proportion to the unit. -/
def share (weights : Array ℚ) (i : Nat) : ℚ :=
  weights.getD i 0 / (∑ j ∈ Finset.range weights.size, weights.getD j 0) * unit

/-- The share of the `i`-th weight, rounded to the nearest integer. -/
def part (weights : Array ℚ) (i : Nat) : Nat := ⌊share weights i + 1 / 2⌋₊

/-! ### Sums -/

private theorem foldl_add_eq_sum_range {α : Type} [AddCommMonoid α] (a : Array α) :
    a.foldl (· + ·) 0 = ∑ i ∈ Finset.range a.size, a.getD i 0 := by
  rw [← Array.foldl_toList, ← List.sum_eq_foldl, Finset.sum_range, ← Fin.sum_univ_getElem]
  exact Finset.sum_congr rfl fun i _ => Array.getElem_eq_getD 0

/-- Terms that are the same on both sides of the middle one come to twice those on one side. -/
private theorem sum_range_symmetric {α : Type} [AddCommMonoid α] {f : Nat → α} {r : Nat}
    (hf : ∀ i < r, f (2 * r - i) = f i) :
    ∑ i ∈ Finset.range (2 * r + 1), f i = 2 • ∑ i ∈ Finset.range r, f i + f r := by
  have hright : ∑ i ∈ Finset.range r, f (r + 1 + i) = ∑ i ∈ Finset.range r, f i := by
    rw [← Finset.sum_range_reflect]
    refine Finset.sum_congr rfl fun i hi => ?_
    rw [Finset.mem_range] at hi
    have hplace : r + 1 + (r - 1 - i) = 2 * r - i := by omega
    rw [hplace, hf i hi]
  have hcount : 2 * r + 1 = (r + 1) + r := by omega
  rw [hcount, Finset.sum_range_add, hright, Finset.sum_range_succ, two_nsmul, add_right_comm]

/-! ### Rounding and holding -/

/-- A share of the unit is rounded to the nearest integer, and it is not held. -/
theorem hold_truncate_round {x : ℚ} (hnonneg : 0 ≤ x) (hunit : x ≤ unit) :
    hold (Scalar.truncate (Scalar.round x)) = ⌊x + 1 / 2⌋₊ := by
  have hround : Scalar.round x = (⌊x + 1 / 2⌋ : ℚ) := if_neg hnonneg.not_gt
  have htruncate (n : ℤ) : Scalar.truncate (n : ℚ) = n := by
    simp only [Scalar.truncate, Rat.num_intCast, Rat.den_intCast, Nat.cast_one, Int.tdiv_one]
  have hlt : ⌊x + 1 / 2⌋₊ < unit + 1 := by
    rw [Nat.floor_lt (by linarith), Nat.cast_add_one]
    linarith
  rw [hround, htruncate, hold, Int.floor_toNat]
  exact Nat.min_eq_right (Nat.le_of_lt_succ hlt)

/-- What is left for the middle weight, if there is anything. -/
theorem hold_add_drift (q beside : Nat) :
    hold (q + ((unit : ℤ) - (beside + q : Nat))) = unit - beside := by
  have hleft : (q : ℤ) + ((unit : ℤ) - (beside + q : Nat)) = unit - beside := by
    push_cast
    ring
  have hmin : hold (unit - beside : ℤ) = min unit (unit - beside : ℤ).toNat := rfl
  rw [hleft, hmin]
  omega

/-! ### Shares -/

namespace IsBell

variable {weights : Array ℚ} {radius : Nat} (hbell : IsBell weights radius)

include hbell

theorem getD_pos {i : Nat} (hi : i < weights.size) : 0 < weights.getD i 0 := by
  rw [← Array.getElem_eq_getD (h := hi) 0]
  exact hbell.pos _ (Array.getElem_mem hi)

theorem getD_reflect {i : Nat} (hi : i ≤ 2 * radius) :
    weights.getD (2 * radius - i) 0 = weights.getD i 0 := by
  have hsize := hbell.size_eq
  have hplace : weights.size - 1 - i = 2 * radius - i := by omega
  rw [← hplace, getD_of_reverse_eq hbell.symmetric (by omega)]

theorem getD_le_middle {i : Nat} (hi : i ≤ radius) : weights.getD i 0 ≤ weights.getD radius 0 := by
  induction hi using Nat.decreasingInduction with
  | of_succ i hi ih => exact (hbell.falling i hi).trans ih
  | self => exact le_rfl

theorem total_pos : 0 < ∑ j ∈ Finset.range weights.size, weights.getD j 0 := by
  refine Finset.sum_pos (fun j hj => hbell.getD_pos (Finset.mem_range.mp hj)) ⟨0, ?_⟩
  rw [Finset.mem_range, hbell.size_eq]
  exact Nat.succ_pos _

theorem share_pos {i : Nat} (hi : i < weights.size) : 0 < share weights i :=
  mul_pos (div_pos (hbell.getD_pos hi) hbell.total_pos) (by norm_num [unit])

theorem share_reflect {i : Nat} (hi : i ≤ 2 * radius) :
    share weights (2 * radius - i) = share weights i := by
  rw [share, hbell.getD_reflect hi, share]

theorem share_le_middle {i : Nat} (hi : i ≤ radius) : share weights i ≤ share weights radius :=
  mul_le_mul_of_nonneg_right
    (div_le_div_of_nonneg_right (hbell.getD_le_middle hi) hbell.total_pos.le) (Nat.cast_nonneg _)

theorem sum_share_eq_unit : ∑ i ∈ Finset.range weights.size, share weights i = unit := by
  simp only [share]
  rw [← Finset.sum_mul, ← Finset.sum_div, div_self hbell.total_pos.ne', one_mul]

theorem share_le_unit {i : Nat} (hi : i < weights.size) : share weights i ≤ unit := by
  rw [← hbell.sum_share_eq_unit]
  exact Finset.single_le_sum (fun j hj => (hbell.share_pos (Finset.mem_range.mp hj)).le)
    (Finset.mem_range.mpr hi)

/-- The shares to one side of the middle are half of what the middle leaves. -/
theorem two_mul_sum_share :
    2 * ∑ i ∈ Finset.range radius, share weights i = unit - share weights radius := by
  have hsum := hbell.sum_share_eq_unit
  rw [hbell.size_eq, sum_range_symmetric fun i hi => hbell.share_reflect (by omega),
    nsmul_eq_mul, Nat.cast_ofNat] at hsum
  linarith

theorem part_le_share_add {i : Nat} (hi : i < weights.size) :
    (part weights i : ℚ) ≤ share weights i + 1 / 2 :=
  Nat.floor_le (by linarith [hbell.share_pos hi])

theorem part_reflect {i : Nat} (hi : i ≤ 2 * radius) :
    part weights (2 * radius - i) = part weights i := by
  rw [part, hbell.share_reflect hi, part]

/-! ### Weights beside the middle -/

/-- Rounding adds at most one half to every share beside the middle. -/
theorem two_mul_sum_part_le :
    ((2 * ∑ i ∈ Finset.range radius, part weights i : Nat) : ℚ)
      ≤ unit + radius - share weights radius := by
  have hparts : ∑ i ∈ Finset.range radius, (part weights i : ℚ)
      ≤ ∑ i ∈ Finset.range radius, (share weights i + 1 / 2) := by
    refine Finset.sum_le_sum fun i hi => hbell.part_le_share_add ?_
    rw [Finset.mem_range] at hi
    rw [hbell.size_eq]
    omega
  rw [Finset.sum_add_distrib, Finset.sum_const, Finset.card_range, nsmul_eq_mul] at hparts
  have hshares := hbell.two_mul_sum_share
  push_cast
  linarith

/-- **Few weights do not exceed the unit.** If they did, the middle share would be less than the
number of taps on one side, and so would all the others, which then come to too little. -/
theorem two_mul_sum_part_le_unit (hradius : radius ≤ 182) :
    2 * ∑ i ∈ Finset.range radius, part weights i ≤ unit := by
  by_contra hexceeds
  have hunit : unit = 65536 := rfl
  have hmiddle : share weights radius ≤ radius - 2 := by
    have htwo : unit + 2 ≤ 2 * ∑ i ∈ Finset.range radius, part weights i := by omega
    have hle := hbell.two_mul_sum_part_le
    have htwoRat : ((unit + 2 : Nat) : ℚ) ≤ _ := Nat.cast_le.mpr htwo
    rw [Nat.cast_add, Nat.cast_ofNat] at htwoRat
    linarith
  have hpart (i : Nat) (hi : i ∈ Finset.range radius) : part weights i ≤ radius - 2 := by
    rw [Finset.mem_range] at hi
    have hle := hbell.part_le_share_add (show i < weights.size by rw [hbell.size_eq]; omega)
    have hshare := hbell.share_le_middle hi.le
    have hlt : ((part weights i + 2 : Nat) : ℚ) < (radius + 1 : Nat) := by
      push_cast
      linarith
    have hlt' := Nat.cast_lt.mp hlt
    omega
  have hsum : ∑ i ∈ Finset.range radius, part weights i ≤ radius * (radius - 2) := by
    simpa only [Finset.card_range, smul_eq_mul] using Finset.sum_le_card_nsmul _ _ _ hpart
  have hproduct : radius * (radius - 2) ≤ 182 * 180 := Nat.mul_le_mul hradius (by omega)
  omega

end IsBell

/-! ### Kernels -/

/-- The weights of a kernel before the middle one is corrected. -/
private def rounded (weights : Array ℚ) : Kernel :=
  weights.map fun w =>
    hold (Scalar.truncate (Scalar.round (w / weights.foldl (· + ·) 0.0 * 65536.0)))

private theorem quantize_eq_modify (weights : Array ℚ) : quantize weights
    = (rounded weights).modify ((rounded weights).size / 2) fun q =>
      hold (q + ((unit : ℤ) - ((rounded weights).foldl (· + ·) 0 : Nat))) := rfl

section Quantize

variable {weights : Array ℚ} {radius : Nat} (hbell : IsBell weights radius)

include hbell

/-- A weight is rounded to its share, and rounding it is not hindered. -/
private theorem getElem_rounded {i : Nat} (hi : i < (rounded weights).size) :
    (rounded weights)[i] = part weights i := by
  have hplain : i < weights.size := by rwa [rounded, Array.size_map] at hi
  have htotal : weights.foldl (· + ·) 0.0
      = ∑ j ∈ Finset.range weights.size, weights.getD j 0 := by
    rw [← foldl_add_eq_sum_range]
    norm_num
  have hscale : (65536.0 : ℚ) = (unit : Nat) := by norm_num [unit]
  have hround := hold_truncate_round (hbell.share_pos hplain).le (hbell.share_le_unit hplain)
  rw [share, ← Array.getElem_eq_getD (h := hplain) 0, ← htotal, ← hscale] at hround
  simp only [rounded, Array.getElem_map]
  rw [hround, part, share, ← Array.getElem_eq_getD (h := hplain) 0, htotal, hscale]

/-- Together they come to those beside the middle, which are there twice, and the middle one. -/
private theorem foldl_rounded : (rounded weights).foldl (· + ·) 0
    = 2 * ∑ j ∈ Finset.range radius, part weights j + part weights radius := by
  have hsize : (rounded weights).size = 2 * radius + 1 := by
    rw [rounded, Array.size_map, hbell.size_eq]
  have hpart (i : Nat) (hi : i ∈ Finset.range (2 * radius + 1)) :
      (rounded weights).getD i 0 = part weights i := by
    rw [← hsize, Finset.mem_range] at hi
    rw [← Array.getElem_eq_getD (h := hi) 0, getElem_rounded hbell hi]
  rw [foldl_add_eq_sum_range, hsize, Finset.sum_congr rfl hpart,
    sum_range_symmetric fun i hi => hbell.part_reflect (by omega), smul_eq_mul]

/-- **What every weight becomes**: its rounded share, but for the middle one, which becomes what the
others leave of the unit. -/
theorem getD_quantize {i : Nat} (hi : i ≤ 2 * radius) :
    (quantize weights).getD i 0 = if i = radius
      then unit - 2 * ∑ j ∈ Finset.range radius, part weights j else part weights i := by
  have hsize : (rounded weights).size = 2 * radius + 1 := by
    rw [rounded, Array.size_map, hbell.size_eq]
  have hplace : i < (rounded weights).size := by omega
  have hmiddle : (rounded weights).size / 2 = radius := by omega
  rw [quantize_eq_modify, ← Array.getElem_eq_getD (h := by rwa [Array.size_modify]) 0,
    Array.getElem_modify, hmiddle, foldl_rounded hbell, getElem_rounded hbell]
  by_cases hi' : radius = i
  · subst hi'
    rw [if_pos rfl, if_pos rfl, hold_add_drift]
  · rw [if_neg hi', if_neg (Ne.symm hi')]

theorem getD_quantize_reflect {i : Nat} (hi : i ≤ 2 * radius) :
    (quantize weights).getD (2 * radius - i) 0 = (quantize weights).getD i 0 := by
  rw [getD_quantize hbell (Nat.sub_le ..), getD_quantize hbell hi, hbell.part_reflect hi]
  have hmiddle : 2 * radius - i = radius ↔ i = radius := by omega
  simp only [hmiddle]

theorem quantize_reverse : (quantize weights).reverse = quantize weights := by
  have hsize := (size_quantize weights).trans hbell.size_eq
  refine Array.ext Array.size_reverse fun i hi hi' => ?_
  have hplace : (quantize weights).size - 1 - i = 2 * radius - i := by omega
  rw [Array.getElem_reverse, Array.getElem_eq_getD 0, Array.getElem_eq_getD 0, hplace]
  exact getD_quantize_reflect hbell (by omega)

/-- **What a kernel weighs**: the unit, unless the weights beside the middle exceed it. -/
theorem mass_quantize :
    (quantize weights).mass = max unit (2 * ∑ i ∈ Finset.range radius, part weights i) := by
  have hbeside : ∑ i ∈ Finset.range radius, (quantize weights).getD i 0
      = ∑ i ∈ Finset.range radius, part weights i := by
    refine Finset.sum_congr rfl fun i hi => ?_
    rw [Finset.mem_range] at hi
    rw [getD_quantize hbell (by omega), if_neg hi.ne]
  rw [mass, size_quantize, hbell.size_eq, sum_range_symmetric fun i hi =>
    getD_quantize_reflect hbell (by omega), hbeside, getD_quantize hbell (by omega), if_pos rfl,
    smul_eq_mul]
  omega

theorem unit_le_mass_quantize : unit ≤ (quantize weights).mass := by
  rw [mass_quantize hbell]
  exact Nat.le_max_left ..

theorem mass_quantize_le : (quantize weights).mass ≤ unit + radius := by
  have hsize := hbell.size_eq
  have hbeside := hbell.two_mul_sum_part_le
  have hmiddle := hbell.share_pos (show radius < weights.size by omega)
  rw [mass_quantize hbell]
  refine max_le (Nat.le_add_right ..) (Nat.cast_le (α := ℚ).mp ?_)
  rw [Nat.cast_add]
  linarith

theorem mass_quantize_eq_unit (hradius : radius ≤ 182) : (quantize weights).mass = unit := by
  rw [mass_quantize hbell]
  exact max_eq_left (hbell.two_mul_sum_part_le_unit hradius)

end Quantize

/-! ### Flat kernels -/

section Flat

variable (radius : Nat)

/-- The bell curve of a deviation that is large for the radius. -/
def flat : Array ℚ := Array.replicate (2 * radius + 1) 1

theorem size_flat : (flat radius).size = 2 * radius + 1 := Array.size_replicate

theorem getD_flat {i : Nat} (hi : i ≤ 2 * radius) : (flat radius).getD i 0 = 1 := by
  have hplace : i < (flat radius).size := by rw [size_flat]; omega
  rw [← Array.getElem_eq_getD (h := hplace) 0]
  exact Array.getElem_replicate ..

theorem isBell_flat : IsBell (flat radius) radius where
  size_eq := size_flat radius
  pos w hw := by
    rw [(Array.mem_replicate.mp hw).2]
    exact one_pos
  symmetric := Array.reverse_replicate ..
  falling i hi := by rw [getD_flat radius (by omega), getD_flat radius (by omega)]

/-- Weights that are all the same come to what the rounded share of one comes to. -/
theorem mass_quantize_flat : (quantize (flat radius)).mass
    = max unit (2 * (radius * ⌊(unit : ℚ) / (2 * radius + 1) + 1 / 2⌋₊)) := by
  have htotal : ∑ j ∈ Finset.range (flat radius).size, (flat radius).getD j 0
      = 2 * radius + 1 := by
    rw [Finset.sum_congr rfl fun j hj => getD_flat radius (by
      rw [Finset.mem_range, size_flat] at hj
      omega), Finset.sum_const, Finset.card_range, size_flat, nsmul_one]
    push_cast
    rfl
  have hpart (i : Nat) (hi : i ∈ Finset.range radius) :
      part (flat radius) i = ⌊(unit : ℚ) / (2 * radius + 1) + 1 / 2⌋₊ := by
    rw [Finset.mem_range] at hi
    rw [part, share, getD_flat radius (by omega), htotal, one_div_mul_eq_div]
  rw [mass_quantize (isBell_flat radius), Finset.sum_congr rfl hpart, Finset.sum_const,
    Finset.card_range, smul_eq_mul]

end Flat

/-! ### Uniform neighbourhoods -/

section Uniform

variable {k : Kernel}

/-- Where all samples under the kernel are the same, they are counted with its whole weight. -/
theorem sumAt_eq_mass_mul {n x v : Nat} (hcovers : k.Covers n x) {sample : Nat → Nat}
    (hsample : ∀ i < n, Near (k.size / 2) x i → sample i = v) :
    k.sumAt n sample x = k.mass * v := by
  rw [sumAt_eq_sum_ite, mass, Finset.sum_mul]
  refine Finset.sum_congr rfl fun j hj => ?_
  rw [Finset.mem_range] at hj
  have hin := hcovers j hj
  rw [if_pos hin, hsample (x + j - k.size / 2) (by omega) ⟨by omega, by omega⟩]

/-- A kernel that is too heavy does not darken, -/
theorem le_toByte_mass_mul (hheavy : unit ≤ k.mass) (v : UInt8) : v ≤ toByte (k.mass * v.toNat) :=
  calc v = toByte (unit * v.toNat) := (toByte_unit_mul v).symm
    _ ≤ toByte (k.mass * v.toNat) := toByte_le_toByte (Nat.mul_le_mul_right _ hheavy)

/-- and what it has too much is lost in rounding up to half a step at the brightest byte. -/
theorem toByte_mass_mul (hheavy : unit ≤ k.mass) (hslight : k.mass ≤ unit + 128) (v : UInt8) :
    toByte (k.mass * v.toNat) = v := by
  obtain ⟨excess, hmass⟩ := Nat.exists_eq_add_of_le hheavy
  have hunit : unit = 65536 := rfl
  have hv := v.toNat_lt
  have hexcess : excess * v.toNat ≤ 128 * 255 := Nat.mul_le_mul (by omega) (by omega)
  refine UInt8.toNat_inj.mp ?_
  rw [toNat_toByte, hmass, Nat.add_mul, hunit]
  omega

end Uniform

end Kernel

namespace Buffer

/-- A channel has the value `v` in all the pixels of a picture within `r` columns and rows. -/
def UniformNear (src : Buffer) (w h r : Nat) (c : Pixel.Channel) (v : UInt8) (x y : Nat) : Prop :=
  ∀ x' < w, ∀ y' < h, Near r x x' → Near r y y' → (src.pixelAt (y' * w + x')).channel c = v

/-- **Inside a picture**, where the kernel lies on it with all its taps, a uniform neighbourhood is
blurred by weighing its value twice. -/
theorem channel_convolve_uniform {src : Buffer} {w h x y : Nat} {k : Kernel} {c : Pixel.Channel}
    {v : UInt8} (hx : x < w) (hy : y < h) (hcolumns : k.Covers w x) (hrows : k.Covers h y)
    (huniform : src.UniformNear w h (k.size / 2) c v x y) :
    ((src.convolve w h k).pixelAt (y * w + x)).channel c
      = Kernel.toByte (k.mass * (Kernel.toByte (k.mass * v.toNat)).toNat) := by
  have hrow (y' : Nat) (hy' : y' < h) (hnear : Near (k.size / 2) y y') :
      (src.rowBlur w k c x y').toNat = (Kernel.toByte (k.mass * v.toNat)).toNat := by
    rw [rowBlur, Kernel.sumAt_eq_mass_mul hcolumns fun x' hx' hcolumn => by
      rw [huniform x' hx' y' hy' hcolumn hnear]]
  rw [channel_convolve k src hx hy, blurAt, Kernel.sumAt_eq_mass_mul hrows hrow]

end Buffer

namespace Kernel

/-- **The weight of a quantised kernel.** Let weights fall from the middle to both sides of it. The
kernel made of them has as many weights, reads the same backwards, and none of its weights exceeds
the unit. Together they come to the unit or to what the rounded weights beside the middle come to,
if that is more, which is at most one for each tap on one side of it. Up to a radius of 182 it is
never more. So where the kernel lies on a picture with all its taps, a uniform neighbourhood is not
darkened, and it stays as bright as it was unless the kernel is too heavy by more than 128. -/
theorem quantize_weight {weights : Array ℚ} {radius : Nat} (hbell : IsBell weights radius) :
    (quantize weights).size = 2 * radius + 1 ∧
    (quantize weights).reverse = quantize weights ∧
    (∀ q ∈ quantize weights, q ≤ unit) ∧
    (quantize weights).mass = max unit (2 * ∑ i ∈ Finset.range radius, part weights i) ∧
    (quantize weights).mass ≤ unit + radius ∧
    (radius ≤ 182 → (quantize weights).mass = unit) ∧
    ∀ (src : Buffer) (w h x y : Nat) (c : Pixel.Channel) (v : UInt8), x < w → y < h →
      (quantize weights).Covers w x → (quantize weights).Covers h y →
      src.UniformNear w h radius c v x y →
      v ≤ ((src.convolve w h (quantize weights)).pixelAt (y * w + x)).channel c ∧
      ((quantize weights).mass ≤ unit + 128 →
        ((src.convolve w h (quantize weights)).pixelAt (y * w + x)).channel c = v) := by
  have hsize := (size_quantize weights).trans hbell.size_eq
  have hheavy := unit_le_mass_quantize hbell
  refine ⟨hsize, quantize_reverse hbell, fun q hq => le_unit_of_mem_quantize hq,
    mass_quantize hbell, mass_quantize_le hbell, mass_quantize_eq_unit hbell,
    fun src w h x y c v hx hy hcolumns hrows huniform => ?_⟩
  have hradius : (quantize weights).size / 2 = radius := by omega
  rw [Buffer.channel_convolve_uniform hx hy hcolumns hrows (hradius.symm ▸ huniform)]
  refine ⟨UInt8.le_trans (le_toByte_mass_mul hheavy v) (le_toByte_mass_mul hheavy _),
    fun hslight => ?_⟩
  rw [toByte_mass_mul hheavy hslight v, toByte_mass_mul hheavy hslight v]

/-- Three weights, and a white pixel among its like, which stays white. -/
theorem quantize_weight_three :
    (quantize #[1, 2, (1 : ℚ)]).mass = unit ∧
      (((Buffer.ofPixels 9 fun _ => ⟨255, 255, 255, 255⟩).convolve 3 3
        (quantize #[1, 2, (1 : ℚ)])).pixelAt 4).channel .red = 255 := by
  have hbell : IsBell #[1, 2, (1 : ℚ)] 1 :=
    { size_eq := rfl
      pos := by decide
      symmetric := by simp
      falling := by decide }
  obtain ⟨hsize, -, -, -, -, hmass, hinside⟩ := quantize_weight hbell
  have hunit := hmass (by decide)
  have hcovers : (quantize #[1, 2, (1 : ℚ)]).Covers 3 1 := fun j hj => by omega
  refine ⟨hunit, (hinside _ 3 3 1 1 .red 255 (by decide) (by decide) hcovers hcovers
    fun x' hx' y' hy' _ _ => ?_).2 (hunit.le.trans (Nat.le_add_right ..))⟩
  rw [Buffer.pixelAt_ofPixels _ _ (Buffer.place_lt hx' hy')]
  rfl

/-- **Flat kernels may be too heavy**, and brighten. With 276 taps on each side all weights round up
to 119. That is 271 too much together, and the middle weight has but 119 to give back. -/
theorem flat_kernel_too_heavy :
    ¬ (∀ (weights : Array ℚ) (radius : Nat), 1 ≤ radius → IsBell weights radius →
      (quantize weights).mass = unit) ∧
    ¬ (∀ (weights : Array ℚ) (radius : Nat), 1 ≤ radius → IsBell weights radius →
      ∀ (src : Buffer) (w h x y : Nat) (c : Pixel.Channel) (v : UInt8), x < w → y < h →
        (quantize weights).Covers w x → (quantize weights).Covers h y →
        src.UniformNear w h radius c v x y →
        ((src.convolve w h (quantize weights)).pixelAt (y * w + x)).channel c = v) := by
  have hfloor : ⌊((unit : Nat) : ℚ) / (2 * (276 : Nat) + 1) + 1 / 2⌋₊ = 119 := by
    rw [Nat.floor_eq_iff (by positivity)]
    norm_num [unit]
  have hmass : (quantize (flat 276)).mass = 65688 := by
    rw [mass_quantize_flat, hfloor]
    rfl
  have hbell := isBell_flat 276
  have hsize := (size_quantize (flat 276)).trans (size_flat 276)
  refine ⟨fun hnormalised => ?_, fun hpreserved => ?_⟩
  · have hunit := hnormalised _ _ (by decide) hbell
    rw [hmass] at hunit
    exact absurd hunit (by decide)
  · have hcovers : (quantize (flat 276)).Covers 553 276 := fun j hj => by omega
    have huniform (r : Nat) : (Buffer.ofPixels (553 * 553) fun _ =>
        ⟨254, 254, 254, 254⟩).UniformNear 553 553 r .red 254 276 276 := fun x' hx' y' hy' _ _ => by
      rw [Buffer.pixelAt_ofPixels _ _ (Buffer.place_lt hx' hy')]
      rfl
    have hbright := hpreserved _ _ (by decide) hbell _ 553 553 276 276 .red 254 (by decide)
      (by decide) hcovers hcovers (huniform 276)
    rw [Buffer.channel_convolve_uniform (by decide) (by decide) hcovers hcovers (huniform _),
      hmass] at hbright
    exact absurd hbright (by decide)

end Kernel

end SceneCanvas
