import SceneCanvas.Blur.Gaussian
import SceneCanvas.Proofs.RoundingOrder

/-!
# The reach of small deviations

A deviation below two reaches only a few pixels, so the sizes of its kernel are far from exceeding
any word. As for large doubles, this takes no bound on the error of rounding: a single that is below
a power of two (`Scalar.Below`) has a product that is below the product of the powers, or once more
the double of it, and below sixteen the integers around it can be tried one by one.
-/

namespace SceneCanvas

namespace Scalar

open Float.Model
open Float.Model.UnpackedFloat

theorem single_lt_iff {x y : Float32} : x < y ↔
    UnpackedFloat.compare x.toModel.unpack y.toModel.unpack = some .lt := by
  change decide ((UnpackedFloat.compare x.toModel.unpack y.toModel.unpack == some .lt) = true)
    = true ↔ _
  rw [decide_eq_true_iff, beq_iff_eq]

theorem single_le_iff {x y : Float32} : x ≤ y ↔
    (UnpackedFloat.compare x.toModel.unpack y.toModel.unpack).any (·.isLE) = true := by
  change decide ((UnpackedFloat.compare x.toModel.unpack y.toModel.unpack).any (·.isLE) = true)
    = true ↔ _
  rw [decide_eq_true_iff]

/-- A single that is less than `2 ^ k` in size, by its exponent. -/
inductive Below (k : Int) : UnpackedFloat → Prop where
  | zero (sign : Sign) : Below k (.zero sign)
  | finite {sign : Sign} {mantissa : Nat} {exponent : Int} (hpos : 0 < mantissa)
      (hmantissa : mantissa < 2 ^ 24) (hexponent : exponent ≤ k - 24) :
      Below k (.finite sign mantissa exponent hpos)

/-! ### Storing and rounding -/

/-- How far the digits of a mantissa are shifted to the right. -/
private def shiftOf (mantissa : Nat) (exponent : Int) : Nat :=
  (max (mantissa.log2 + 1 + exponent - 24) (-149) - exponent).toNat

private theorem shiftToTargetExponent_single (mantissa : Nat) (exponent : Int) :
    (shiftToTargetExponent .binary32 mantissa exponent .exact).1.mantissa
        = mantissa / 2 ^ shiftOf mantissa exponent ∧
      (shiftToTargetExponent .binary32 mantissa exponent .exact).2
        = exponent + shiftOf mantissa exponent :=
  ⟨mantissa_shiftRight .., rfl⟩

/-- The digits that a mantissa has too many go to the exponent. -/
private theorem div_shiftOf_lt {mantissa : Nat} {exponent k : Int} (hdigits : 23 ≤ mantissa.log2)
    (hsize : mantissa.log2 + exponent < k) (hk : -125 ≤ k) :
    mantissa / 2 ^ shiftOf mantissa exponent < 2 ^ 24 ∧
      -149 ≤ exponent + shiftOf mantissa exponent ∧
      exponent + shiftOf mantissa exponent ≤ k - 24 := by
  have hshift : mantissa.log2 ≤ shiftOf mantissa exponent + 23 := by
    rw [shiftOf]
    omega
  refine ⟨Nat.div_lt_of_lt_mul (Nat.lt_of_lt_of_le Nat.lt_log2_self ?_), ?_⟩
  · rw [← Nat.pow_add]
    exact Nat.pow_le_pow_right Nat.two_pos (by omega)
  · rw [shiftOf]
    omega

/-- Once a mantissa has been rounded, it has one digit too many at most. -/
private theorem div_shiftOf_lt_of_le {mantissa : Nat} {exponent : Int}
    (hmantissa : mantissa ≤ 2 ^ 24) (hexponent : -149 ≤ exponent) :
    mantissa / 2 ^ shiftOf mantissa exponent < 2 ^ 24 ∧ shiftOf mantissa exponent ≤ 1 := by
  obtain hless | rfl := Nat.lt_or_eq_of_le hmantissa
  · have hlog : mantissa.log2 ≤ 23 := by
      obtain rfl | hpos := Nat.eq_zero_or_pos mantissa
      · decide
      · exact Nat.le_of_lt_succ ((Nat.log2_lt hpos.ne').mpr hless)
    have hstay : shiftOf mantissa exponent = 0 := by
      rw [shiftOf]
      omega
    rw [hstay, Nat.pow_zero, Nat.div_one]
    exact ⟨hless, Nat.zero_le 1⟩
  · have hone : shiftOf (2 ^ 24) exponent = 1 := by
      rw [shiftOf, Nat.log2_two_pow]
      omega
    rw [hone]
    decide

/-- **Rounding** raises a power of two that a number is below by at most one. -/
theorem below_roundWithAccuracy (sign : Sign) {mantissa : Nat} {exponent k : Int}
    (hdigits : 23 ≤ mantissa.log2) (hsize : mantissa.log2 + exponent < k) (hk : -125 ≤ k) :
    Below (k + 1) (roundWithAccuracy .binary32 sign mantissa exponent .exact) := by
  obtain ⟨hfirst, hexponent⟩ := shiftToTargetExponent_single mantissa exponent
  generalize hshifted : shiftToTargetExponent .binary32 mantissa exponent .exact = shifted
    at hfirst hexponent
  obtain ⟨hfits, hleast, hmost⟩ := div_shiftOf_lt hdigits hsize hk
  rw [← hfirst] at hfits
  rw [← hexponent] at hleast hmost
  have hrounded : shifted.1.roundedMantissa ≤ 2 ^ 24 := by
    obtain h | h := roundedMantissa_cases shifted.1 <;> omega
  obtain ⟨hlast, hexponent'⟩ :=
    shiftToTargetExponent_single shifted.1.roundedMantissa shifted.2
  obtain ⟨hfits', hcarry⟩ := div_shiftOf_lt_of_le hrounded hleast
  unfold roundWithAccuracy
  dsimp only
  rw [hshifted]
  generalize shiftToTargetExponent .binary32 shifted.1.roundedMantissa shifted.2 .exact = last
    at hlast hexponent'
  split
  next => exact .zero sign
  next hne => exact .finite _ (hlast ▸ hfits') (by omega)

/-- What a word says that is not set aside for numbers without a size. -/
private theorem below_unpack_packComponents (sign : Sign) {exponent : BitVec 8}
    (mantissa : BitVec 23) {k : Int} (hk : -125 ≤ k) (hones : exponent ≠ -1#8)
    (hexponent : exponent.toNat ≤ k + 126) :
    Below k (unpack .binary32 (packComponents .binary32 sign exponent mantissa)) := by
  have hbias : ((Format.binary32.exponentBias : Int)
      + Format.binary32.mantissaBitsWithoutImplicit) = 150 := rfl
  have hmantissa : mantissa.toNat < 2 ^ 23 := mantissa.isLt
  unfold UnpackedFloat.unpack
  dsimp only
  rw [unpackExponent_packComponents, if_neg hones, hbias]
  simp only [unpackMantissa_packComponents]
  split
  next hzero =>
    rw [hzero]
    split
    next => exact .zero _
    next => exact .finite _ (by omega) (by rw [BitVec.toNat_zero]; omega)
  next => exact .finite _ (by rw [toNat_one_append]; omega) (by omega)

/-- **Storing** a single keeps it below. -/
theorem Below.stored {k : Int} (hk : -125 ≤ k) (hk' : k ≤ 127) {u : UnpackedFloat}
    (h : Below k u) : Below k (Float32.Model.pack u).unpack := by
  change Below k (unpack .binary32 (UnpackedFloat.pack .binary32 u))
  cases h with
  | zero sign => cases sign <;> exact .zero _
  | @finite sign mantissa exponent hpos hmantissa hexponent =>
    have hbias : Format.binary32.exponentBias = 127 := rfl
    unfold UnpackedFloat.pack
    dsimp only
    rw [hbias]
    generalize hbiased : (exponent + (127 : Nat) + (23 : Nat)).toNat = biased
    have hfits : biased < 255 := by omega
    have hvalue : (BitVec.ofNat 8 biased).toNat = biased := Nat.mod_eq_of_lt (by omega)
    have hones : BitVec.ofNat 8 biased ≠ -1#8 := fun heq => by
      have hfull : biased = 255 := hvalue.symm.trans (congrArg BitVec.toNat heq)
      omega
    have hsmall : ¬ 2 ^ Format.binary32.exponentBits ≤ biased + 1 := by
      change ¬ 2 ^ 8 ≤ biased + 1
      omega
    rw [if_neg hsmall]
    split
    next => exact below_unpack_packComponents sign _ hk hones (by rw [hvalue]; omega)
    next =>
      have hleast : (0#8).toNat ≤ k + 126 := by rw [BitVec.toNat_zero]; omega
      exact below_unpack_packComponents sign _ hk (by decide) hleast

theorem Below.abs {k : Int} {u : UnpackedFloat} (h : Below k u) : Below k u.abs := by
  cases h with
  | zero sign => exact .zero _
  | finite hpos hmantissa hexponent => exact .finite hpos hmantissa hexponent

/-! ### Numbers below sixteen -/

/-- The integer part of a single below sixteen. -/
private theorem toInt_lt {low high : Int} {u : UnpackedFloat} (h : Below 4 u) :
    toInt low high u < 16 := by
  cases h with
  | zero => exact (by decide : (0 : Int) < 16)
  | @finite sign mantissa exponent hpos hmantissa hexponent =>
    rw [toInt, roundToInt_eq]
    have hwhole : exponent.toNat = 0 := by omega
    have hshift : 2 ^ 20 ≤ 2 ^ (-exponent).toNat := Nat.pow_le_pow_right Nat.two_pos (by omega)
    have hlt : mantissa * 2 ^ exponent.toNat / 2 ^ (-exponent).toNat < 16 := by
      rw [hwhole, Nat.pow_zero, Nat.mul_one]
      exact Nat.div_lt_of_lt_mul (by omega)
    cases sign with
    | negative =>
      exact Int.lt_of_le_of_lt (Int.neg_nonpos_of_nonneg (Int.natCast_nonneg _)) (by decide)
    | positive => exact Int.ofNat_lt.mpr hlt

private theorem toNat_toUInt64_lt {x : Float32} (h : Below 4 x.toModel.unpack) :
    x.toUInt64.toNat < 16 := by
  have hlt : (toInt 0 (UInt64.size - 1) x.toModel.unpack).toNat < 16 := by
    have hbound : toInt 0 (UInt64.size - 1) x.toModel.unpack < 16 := toInt_lt h
    omega
  change (UInt64.ofNatClamp (toInt 0 (UInt64.size - 1) x.toModel.unpack).toNat).toNat < 16
  rwa [UInt64.toNat_ofNatClamp_of_lt (Nat.lt_trans hlt (by decide))]

/-- A single below sixteen is nothing in comparison with `2 ^ 23`. -/
private theorem lt_of_below {x : Float32} (h : Below 4 x.toModel.unpack) : x < 8388608.0 := by
  obtain ⟨hm, hlarge⟩ : ∃ hm, (8388608.0 : Float32).toModel.unpack
      = .finite .positive 8388608 0 hm := ⟨_, rfl⟩
  rw [single_lt_iff, hlarge]
  generalize x.toModel.unpack = u at h
  cases h with
  | zero sign => rfl
  | @finite sign mantissa exponent hpos hmantissa hexponent =>
    cases sign with
    | negative => rfl
    | positive =>
      have hexponents : compare exponent 0 = .lt := by
        rw [Int.compare_eq_lt]
        omega
      change some ((compare exponent 0).then _) = _
      rw [hexponents]
      rfl

/-- A finite single, multiplied by nothing. -/
theorem mul_zero_of_isFinite {x : Float32} (h : x.isFinite = true) :
    x * 0.0 = 0.0 ∨ x * 0.0 = -0.0 := by
  obtain ⟨s, hzero⟩ : ∃ s, (0.0 : Float32).toModel.unpack = .zero s := ⟨_, rfl⟩
  have hproduct : x * 0.0 = .ofModel (.pack (UnpackedFloat.mul .binary32 x.toModel.unpack
    (0.0 : Float32).toModel.unpack)) := rfl
  rw [hproduct, hzero]
  obtain ⟨s', hs'⟩ : ∃ s', UnpackedFloat.mul .binary32 x.toModel.unpack (.zero s) = .zero s' := by
    change x.toModel.unpack.isFinite = true at h
    generalize x.toModel.unpack = u at h
    cases u with
    | infinity | notANumber => cases h
    | zero | finite => exact ⟨_, rfl⟩
  rw [hs']
  cases s' with
  | positive => exact .inl rfl
  | negative => exact .inr rfl

theorem Below.isFinite {k : Int} {x : Float32} (h : Below k x.toModel.unpack) :
    x.isFinite = true := by
  change x.toModel.unpack.isFinite = true
  generalize x.toModel.unpack = u at h
  cases h <;> rfl

/-- The numbers that the integral ones below sixteen lead to, by trying all of them. -/
private theorem forall_whole : ∀ n < 16, ∀ whole ∈ [(UInt64.ofNat n).toFloat32,
    -(UInt64.ofNat n).toFloat32], (greater whole 0.0).toUInt32.toNat ≤ 16 ∧
      (greater (whole + 1.0) 0.0).toUInt32.toNat ≤ 16 := by
  decide

/-- **A single below sixteen** is rounded upwards to at most sixteen. -/
theorem toNat_ceil_le {x : Float32} (h : Below 4 x.toModel.unpack) :
    (greater (ceil x) 0.0).toUInt32.toNat ≤ 16 := by
  have habs : Below 4 x.abs.toModel.unpack := h.abs.stored (by decide) (by decide)
  obtain ⟨whole, hwhole, hceil⟩ : ∃ whole, whole = (if x.abs < 1.0 then x * 0.0
      else if x.abs < 8388608.0 then
        if x < 0.0 then -x.abs.toUInt64.toFloat32 else x.abs.toUInt64.toFloat32
      else x) ∧ ceil x = if whole < x then whole + 1.0 else whole := ⟨_, rfl, rfl⟩
  obtain ⟨n, hn, hmem⟩ : ∃ n < 16,
      whole ∈ [(UInt64.ofNat n).toFloat32, -(UInt64.ofNat n).toFloat32] := by
    rw [if_pos (lt_of_below habs)] at hwhole
    rw [hwhole]
    split
    next =>
      refine ⟨0, by decide, ?_⟩
      obtain hpositive | hnegative := mul_zero_of_isFinite h.isFinite
      · exact List.mem_cons.mpr (.inl (hpositive.trans rfl))
      · exact List.mem_cons_of_mem _ (List.mem_singleton.mpr (hnegative.trans rfl))
    next =>
      refine ⟨x.abs.toUInt64.toNat, toNat_toUInt64_lt habs, ?_⟩
      rw [UInt64.ofNat_toNat]
      split
      next => exact List.mem_cons_of_mem _ List.mem_cons_self
      next => exact List.mem_cons_self
  obtain ⟨hstay, hnext⟩ := forall_whole n hn whole hmem
  rw [hceil]
  split
  next => exact hnext
  next => exact hstay

/-! ### Deviations -/

/-- A number less than two that is not negative is so by its exponent. -/
theorem below_of_lt_two {sigma : Float32} (hfinite : sigma.isFinite = true)
    (hnonneg : ¬ sigma < 0.0) (hlt : sigma < 2.0) : Below 1 sigma.toModel.unpack := by
  obtain ⟨s, hzero⟩ : ∃ s, (0.0 : Float32).toModel.unpack = .zero s := ⟨_, rfl⟩
  obtain ⟨hm, htwo⟩ : ∃ hm, (2.0 : Float32).toModel.unpack
      = .finite .positive 8388608 (-22) hm := ⟨_, rfl⟩
  have hnumber : sigma.toModel.unpack.isFinite = true := hfinite
  rw [single_lt_iff, hzero] at hnonneg
  rw [single_lt_iff, htwo] at hlt
  cases hsigma : sigma.toModel.unpack with
  | infinity | notANumber => rw [hsigma] at hnumber; cases hnumber
  | zero sign => exact .zero sign
  | finite sign mantissa exponent hpos =>
    obtain ⟨hmantissa, -, hfull⟩ := (isStorable_of_unpack (by decide) hsigma).toIsPart
    change exponent = -149 ∨ 2 ^ 23 ≤ mantissa at hfull
    rw [hsigma] at hnonneg hlt
    cases sign with
    | negative => exact absurd rfl hnonneg
    | positive =>
      have hcompare : (compare exponent (-22)).then (compare mantissa 8388608) = .lt :=
        Option.some.inj hlt
      rw [Ordering.then_eq_lt, Int.compare_eq_lt, Int.compare_eq_eq, Nat.compare_eq_lt] at hcompare
      exact .finite hpos hmantissa (by omega)

/-- Three times such a number is below sixteen. -/
theorem below_three_mul {sigma : Float32} (h : Below 1 sigma.toModel.unpack) :
    Below 4 (3.0 * sigma).toModel.unpack := by
  obtain ⟨hm, hthree⟩ : ∃ hm, (3.0 : Float32).toModel.unpack
      = .finite .positive 12582912 (-22) hm := ⟨_, rfl⟩
  have hproduct : (3.0 * sigma).toModel = .pack (UnpackedFloat.mul .binary32
    (3.0 : Float32).toModel.unpack sigma.toModel.unpack) := rfl
  rw [hproduct, hthree]
  refine Below.stored (by decide) (by decide) ?_
  generalize sigma.toModel.unpack = u at h
  cases h with
  | zero sign => exact .zero _
  | @finite sign mantissa exponent hpos hmantissa hexponent =>
    have hlow : 23 ≤ (12582912 * mantissa).log2 := by
      rw [Nat.le_log2 (by omega)]
      omega
    have hhigh : (12582912 * mantissa).log2 < 48 := by
      rw [Nat.log2_lt (by omega)]
      omega
    exact below_roundWithAccuracy _ hlow (by omega : _ < (3 : Int)) (by decide)

end Scalar

/-- **A deviation below two** reaches at most sixteen pixels. -/
theorem blurReach_le_of_lt_two {sigma : Float32} (hfinite : sigma.isFinite = true)
    (hnonneg : ¬ sigma < 0.0) (hlt : sigma < 2.0) : blurReach sigma ≤ 16 :=
  Scalar.toNat_ceil_le (Scalar.below_three_mul (Scalar.below_of_lt_two hfinite hnonneg hlt))

end SceneCanvas
