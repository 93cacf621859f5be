import Mathlib
import SceneCanvas.Scalar

/-!
# The size of doubles

Two facts about doubles, from the model that defines their operations.

* The integer part of a double is that of the number that it stands for
  (`Scalar.toInt_of_valueOf`).
* Large doubles stay large. `Scalar.Large` says that a double is at least a power of two in size,
  and `Scalar.large_mul` that such sizes multiply: rounding may change the last digits of a product
  and does not lower its first one. Nothing is said of the digits in between, so no bound on the
  error of rounding is needed.
-/

namespace SceneCanvas.Scalar

open Float.Model
open Float.Model.UnpackedFloat

/-! ### The integer part -/

/-- Shifting out digits divides by a power of two. -/
theorem mantissa_shiftRight (em : ExtendedMantissa) (n : Nat) :
    (em >>> n).mantissa = em.mantissa / 2 ^ n := by
  change (n.repeat ExtendedMantissa.shiftRightOne em).mantissa = _
  induction n with
  | zero => exact (Nat.div_one _).symm
  | succ n ih =>
    rw [Nat.repeat, ExtendedMantissa.shiftRightOne, ih, Nat.div_div_eq_div_mul, Nat.pow_succ]

/-- What is left of `mantissa * 2 ^ exponent` before the point. -/
theorem roundToInt_eq (sign : Sign) (mantissa : Nat) (exponent : Int) :
    roundToInt sign mantissa exponent
      = sign.apply (mantissa * 2 ^ exponent.toNat / 2 ^ (-exponent).toNat : Nat) := by
  have hshift : (0 - (exponent - ((exponent - 0).toNat : Int))).toNat = (-exponent).toNat := by
    omega
  unfold roundToInt decreaseExponent shiftToExponent
  dsimp only
  rw [mantissa_shiftRight, hshift, Int.sub_zero, Nat.shiftLeft_eq]
  rfl

/-- So it is the greatest integer that is not above. -/
theorem floor_parts (mantissa : Nat) (exponent : Int) :
    ⌊(mantissa : Rat) * 2 ^ exponent⌋
      = (mantissa * 2 ^ exponent.toNat / 2 ^ (-exponent).toNat : Nat) := by
  obtain ⟨n, rfl | rfl⟩ := exponent.eq_nat_or_neg
  · have hcast : (mantissa : Rat) * 2 ^ (n : Int) = ((mantissa * 2 ^ n : Nat) : Rat) := by
      push_cast
      rw [zpow_natCast]
    have hneg : (-(n : Int)).toNat = 0 := by omega
    rw [hcast, hneg, Int.toNat_natCast, Nat.pow_zero, Nat.div_one, Int.floor_natCast]
  · have hcast : (mantissa : Rat) * 2 ^ (-(n : Int)) = mantissa / ((2 ^ n : Nat) : Rat) := by
      push_cast
      rw [zpow_neg, zpow_natCast, div_eq_mul_inv]
    have hneg : (-(n : Int)).toNat = 0 := by omega
    rw [hcast, hneg, Int.neg_neg, Int.toNat_natCast, Nat.pow_zero, Nat.mul_one]
    exact Rat.floor_natCast_div_natCast mantissa (2 ^ n)

/-- A sign as a factor. -/
def unit (sign : Sign) : Rat := sign.apply 1

/-- The number that a finite double stands for. -/
def valueOf? (x : Float) : Option Rat :=
  match x.toModel.unpack with
  | .finite sign mantissa exponent _ => some (unit sign * (mantissa * 2 ^ exponent))
  | .zero _ => some 0
  | _ => none

/-- The integer part of a rational number is that of its size, with its sign. -/
private theorem truncate_unit_mul (sign : Sign) {size : Rat} (hsize : 0 ≤ size) :
    truncate (unit sign * size) = sign.apply ⌊size⌋ := by
  have hfloor : Int.tdiv size.num size.den = ⌊size⌋ := by
    rw [Rat.floor_def', Int.tdiv_eq_ediv_of_nonneg (Rat.num_nonneg.mpr hsize)]
  cases sign with
  | positive =>
    have hunit : unit .positive * size = size := by simp [unit, Sign.apply]
    rw [hunit]
    exact hfloor
  | negative =>
    have hunit : unit .negative * size = -size := by simp [unit, Sign.apply]
    rw [hunit]
    change Int.tdiv (-size).num (-size).den = -⌊size⌋
    rw [Rat.num_neg_eq_neg_num, Rat.den_neg_eq_den, Int.neg_tdiv, hfloor]

/-- The integer part of a number that is not negative is the greatest integer below it. -/
theorem truncate_of_nonneg {q : Rat} (hq : 0 ≤ q) : truncate q = ⌊q⌋ := by
  have hunit : unit .positive * q = q := one_mul q
  rw [← hunit, truncate_unit_mul .positive hq, hunit]
  rfl

/-- **The integer part** of a double is that of the number that it stands for, and is not held. -/
theorem toInt_of_valueOf {x : Float} {q : Rat} (h : valueOf? x = some q) (lo hi : Int) :
    x.toModel.unpack.toInt lo hi = truncate q := by
  rw [valueOf?] at h
  split at h
  next sign mantissa exponent hmantissa hunpack =>
    have hsize : (0 : Rat) ≤ mantissa * 2 ^ exponent :=
      mul_nonneg mantissa.cast_nonneg (zpow_nonneg rfl exponent)
    obtain rfl := Option.some.inj h
    rw [hunpack, toInt, roundToInt_eq, ← floor_parts, truncate_unit_mul sign hsize]
  next sign hunpack =>
    obtain rfl := Option.some.inj h
    rw [hunpack]
    rfl
  next => cases h

theorem truncate_of_valueOf {x : Float} {q : Rat} (h : valueOf? x = some q) :
    truncate x = truncate q :=
  toInt_of_valueOf h _ _

/-- An infinite double is sent beyond the words. -/
private theorem exists_truncate_eq : ∃ n, 64 ≤ n ∧ ∀ x : Float,
    truncate x = x.toModel.unpack.toInt (-(Nat.pow 2 n : Nat)) (Nat.pow 2 n : Nat) :=
  ⟨1100, by decide, fun _ => rfl⟩

/-- A double that stands for no number has an integer part that is no size: it is not positive, or
beyond every word. -/
theorem truncate_of_valueOf_eq_none {x : Float} (h : valueOf? x = none) :
    truncate x ≤ 0 ∨ 2 ^ 64 ≤ truncate x := by
  obtain ⟨n, hn, htruncate⟩ := exists_truncate_eq
  rw [valueOf?] at h
  rw [htruncate]
  cases hunpack : x.toModel.unpack with
  | finite => rw [hunpack] at h; cases h
  | zero => rw [hunpack] at h; cases h
  | notANumber => exact .inl (Int.le_refl 0)
  | infinity sign =>
    cases sign with
    | positive => exact .inr (Int.ofNat_le.mpr (Nat.pow_le_pow_right Nat.two_pos hn))
    | negative => exact .inl (Int.neg_nonpos_of_nonneg (Int.natCast_nonneg _))

/-! ### Large doubles -/

/-- A double with this sign that is at least `2 ^ k` in size and has all its digits. -/
inductive Large (sign : Sign) (k : Int) : UnpackedFloat → Prop where
  | infinity : Large sign k (.infinity sign)
  | finite {mantissa : Nat} {exponent : Int} (hpos : 0 < mantissa) (hfull : mantissa.log2 = 52)
      (hk : k ≤ 52 + exponent) : Large sign k (.finite sign mantissa exponent hpos)

private theorem log2_div (m n : Nat) : (m / 2 ^ n).log2 = m.log2 - n := by
  rw [Nat.log2_eq_log_two, Nat.log2_eq_log_two, Nat.log_div_base_pow]

private theorem le_log2_mul {m n : Nat} (hm : 0 < m) (hn : 0 < n) :
    m.log2 + n.log2 ≤ (m * n).log2 := by
  rw [Nat.le_log2 (Nat.mul_pos hm hn).ne', Nat.pow_add]
  exact Nat.mul_le_mul (Nat.log2_self_le hm.ne') (Nat.log2_self_le hn.ne')

/-- Digits that do not fit a mantissa are shifted out, and the exponent makes up for them. -/
private theorem shiftToTargetExponent_eq {mantissa : Nat} {exponent : Int} (accuracy : Accuracy)
    (hmantissa : 52 ≤ mantissa.log2) (hsize : 0 ≤ mantissa.log2 + exponent) :
    (shiftToTargetExponent .binary64 mantissa exponent accuracy).1.mantissa
        = mantissa / 2 ^ (mantissa.log2 - 52) ∧
      (shiftToTargetExponent .binary64 mantissa exponent accuracy).2
        = exponent + (mantissa.log2 - 52 : Nat) := by
  have hmantissaBits : Format.binary64.mantissaBits = 53 := rfl
  have hminExponent : Format.binary64.minExponent = -1074 := rfl
  have hshift : (Format.binary64.targetExponent (totalExponent mantissa exponent)
      - exponent).toNat = mantissa.log2 - 52 := by
    rw [Format.targetExponent, totalExponent, hmantissaBits, hminExponent]
    omega
  unfold shiftToTargetExponent shiftToExponent
  dsimp only
  rw [mantissa_shiftRight, hshift]
  refine ⟨congrArg (· / _) ?_, rfl⟩
  obtain _ | order := accuracy
  · rfl
  · cases order <;> rfl

theorem roundedMantissa_cases (em : ExtendedMantissa) :
    em.roundedMantissa = em.mantissa ∨ em.roundedMantissa = em.mantissa + 1 := by
  obtain ⟨mantissa, round, sticky⟩ := em
  cases round <;> cases sticky
  · exact .inl rfl
  · exact .inl rfl
  · change mantissa + mantissa % 2 = mantissa ∨ mantissa + mantissa % 2 = mantissa + 1
    omega
  · exact .inr rfl

/-- **Rounding** does not lower the first digit. -/
theorem large_roundWithAccuracy (sign : Sign) {mantissa : Nat} {exponent : Int}
    (accuracy : Accuracy) (hmantissa : 52 ≤ mantissa.log2) (hsize : 0 ≤ mantissa.log2 + exponent) :
    Large sign (mantissa.log2 + exponent)
      (roundWithAccuracy .binary64 sign mantissa exponent accuracy) := by
  obtain ⟨hfirst, hexponent⟩ := shiftToTargetExponent_eq accuracy hmantissa hsize
  generalize hshifted : shiftToTargetExponent .binary64 mantissa exponent accuracy = shifted
    at hfirst hexponent
  -- the mantissa once rounded has all its digits, and perhaps one more
  have hfull : shifted.1.mantissa.log2 = 52 := by rw [hfirst, log2_div]; omega
  have hrounded : 52 ≤ shifted.1.roundedMantissa.log2 := by
    have hpow : 2 ^ 52 ≤ shifted.1.mantissa := by
      rw [← hfull]
      exact Nat.log2_self_le fun hzero => by rw [hzero] at hfull; cases hfull
    rw [Nat.le_log2] <;> obtain h | h := roundedMantissa_cases shifted.1 <;> omega
  obtain ⟨hlast, hexponent'⟩ := shiftToTargetExponent_eq .exact hrounded
    (by omega : 0 ≤ (shifted.1.roundedMantissa.log2 : Int) + shifted.2)
  unfold roundWithAccuracy
  dsimp only
  rw [hshifted]
  generalize shiftToTargetExponent .binary64 shifted.1.roundedMantissa shifted.2 .exact = last
    at hlast hexponent'
  have hlog : last.1.mantissa.log2 = 52 := by rw [hlast, log2_div]; omega
  have hne : last.1.mantissa ≠ 0 := fun hzero => by rw [hzero] at hlog; cases hlog
  rw [dif_neg hne]
  exact .finite _ hlog (by omega)

theorem unpack_packedInfinity (sign : Sign) :
    unpack .binary64 (packedInfinity .binary64 sign) = .infinity sign := by
  cases sign <;> rfl

theorem toNat_one_append {n : Nat} (mantissa : BitVec n) :
    (1#1 ++ mantissa).toNat = 2 ^ n + mantissa.toNat := by
  rw [BitVec.toNat_append, ← Nat.shiftLeft_add_eq_or_of_lt mantissa.isLt, Nat.shiftLeft_eq]
  exact congrArg (· + _) (Nat.one_mul _)

theorem toNat_implicit (mantissa : BitVec 52) :
    (1#1 ++ mantissa).toNat = 2 ^ 52 + mantissa.toNat :=
  toNat_one_append mantissa

theorem log2_implicit (mantissa : BitVec 52) : (1#1 ++ mantissa).toNat.log2 = 52 := by
  have hlt := mantissa.isLt
  rw [toNat_implicit, Nat.log2_eq_iff (by omega)]
  omega

/-- The parts of a double, unless its exponent is one of the two that stand for something else. -/
theorem unpack_packComponents (sign : Sign) {exponent : BitVec 11} (mantissa : BitVec 52)
    (hzero : exponent ≠ 0#11) (hones : exponent ≠ -1#11) : ∃ hpos,
    unpack .binary64 (packComponents .binary64 sign exponent mantissa)
      = .finite sign (1#1 ++ mantissa).toNat (exponent.toNat - 1075) hpos := by
  refine ⟨by rw [toNat_implicit]; omega, ?_⟩
  unfold UnpackedFloat.unpack
  dsimp only
  rw [unpackExponent_packComponents, if_neg hones, if_neg hzero]
  simp only [unpackMantissa_packComponents, unpackSign_packComponents, Sign.ofBitVec_toBitVec]
  rfl

/-- **Storing** a double keeps its size. -/
theorem Large.stored {sign : Sign} {k : Int} {u : UnpackedFloat} (hk : 0 ≤ k)
    (h : Large sign k u) : Large sign k (pack u).unpack := by
  change Large sign k (unpack .binary64 (UnpackedFloat.pack .binary64 u))
  cases h with
  | infinity => rw [UnpackedFloat.pack, unpack_packedInfinity]; exact .infinity
  | @finite mantissa exponent hpos hfull hexponent =>
    have hbias : Format.binary64.exponentBias = 1023 := rfl
    have hbits : mantissa.log2 + 1 = Format.binary64.mantissaBits := by rw [hfull]; rfl
    unfold UnpackedFloat.pack
    dsimp only
    rw [hbias, if_pos hbits]
    split
    next => rw [unpack_packedInfinity]; exact .infinity
    next hsmall =>
      generalize hbiased : (exponent + (1023 : Nat) + (52 : Nat)).toNat = biased at hsmall
      have hfits : biased + 1 < 2 ^ 11 := Nat.not_le.mp hsmall
      have hvalue : (BitVec.ofNat 11 biased).toNat = biased :=
        Nat.mod_eq_of_lt (by omega)
      have hne {other : BitVec 11} (h : biased ≠ other.toNat) : BitVec.ofNat 11 biased ≠ other :=
        fun heq => h (hvalue.symm.trans (congrArg BitVec.toNat heq))
      have hzero : BitVec.ofNat 11 biased ≠ 0#11 := hne (by rw [BitVec.toNat_zero]; omega)
      have hones : BitVec.ofNat 11 biased ≠ -1#11 := hne (ne_of_lt (Nat.lt_sub_of_add_lt hfits))
      obtain ⟨hpos, hunpack⟩ := unpack_packComponents sign (BitVec.ofNat 52 mantissa) hzero hones
      rw [hunpack]
      exact .finite _ (log2_implicit _) (by rw [hvalue]; omega)

theorem Large.mono {sign : Sign} {k k' : Int} {u : UnpackedFloat} (hk : k' ≤ k)
    (h : Large sign k u) : Large sign k' u := by
  cases h with
  | infinity => exact .infinity
  | finite hpos hfull hexponent => exact .finite hpos hfull (by omega)

theorem Large.mul {sign sign' : Sign} {k k' : Int} {u v : UnpackedFloat} (hk : 0 ≤ k)
    (hk' : 0 ≤ k') (hu : Large sign k u) (hv : Large sign' k' v) :
    Large (sign * sign') (k + k') (UnpackedFloat.mul .binary64 u v) := by
  cases hu with
  | infinity => cases hv <;> exact .infinity
  | finite hpos hfull hexponent =>
    cases hv with
    | infinity => exact .infinity
    | finite hpos' hfull' hexponent' =>
      have hproduct := le_log2_mul hpos hpos'
      exact (large_roundWithAccuracy _ .exact (by omega) (by omega)).mono (by omega)

/-- **Sizes multiply.** -/
theorem large_mul {sign sign' : Sign} {k k' : Int} {x y : Float} (hk : 0 ≤ k) (hk' : 0 ≤ k')
    (hx : Large sign k x.toModel.unpack) (hy : Large sign' k' y.toModel.unpack) :
    Large (sign * sign') (k + k') (x * y).toModel.unpack :=
  (hx.mul hk hk' hy).stored (by omega)

theorem large_neg {sign : Sign} {k : Int} {x : Float} (hk : 0 ≤ k)
    (hx : Large sign k x.toModel.unpack) : Large (-sign) k (-x).toModel.unpack := by
  have hneg : Large (-sign) k x.toModel.unpack.neg := by
    revert hx
    generalize x.toModel.unpack = u
    rintro (_ | ⟨hpos, hfull, hexponent⟩)
    · exact .infinity
    · exact .finite hpos hfull hexponent
  exact hneg.stored hk

/-- A number with a power of ten is at least as large as without it. -/
private theorem large_scientific {m : Nat} (hm : 0 < m) {n : Nat} (hn : n ≤ 2048) :
    Large .positive m.log2 (UnpackedFloat.ofScientific .binary64 m n) := by
  have hexponentBits : (2 : Int) ^ Format.binary64.exponentBits = 2048 := rfl
  have hten : 0 < 10 ^ n := Nat.pow_pos (by decide)
  have hshift : 0 < m <<< 53 := by
    rw [Nat.shiftLeft_eq]
    exact Nat.mul_pos hm (Nat.two_pow_pos 53)
  have hproduct := le_log2_mul hshift hten
  have hlog : m.log2 + 53 ≤ (m <<< 53).log2 := by
    rw [Nat.shiftLeft_eq]
    exact Nat.log2_two_pow (n := 53) ▸ le_log2_mul hm (Nat.two_pow_pos 53)
  have hrounded : Large (.positive * .positive) m.log2 (roundWithAccuracy .binary64
      (.positive * .positive) (m <<< 53 * 10 ^ n) (-(53 : Nat) + 0) .exact) :=
    (large_roundWithAccuracy _ .exact (by omega) (by omega)).mono (by omega)
  unfold UnpackedFloat.ofScientific
  rw [dif_neg hm.ne', hexponentBits, if_neg (by omega), if_neg (by omega), if_pos (by omega)]
  exact hrounded

/-- A natural number that is not small is as large as a double. -/
theorem large_ofNat {n : Nat} (hn : 2 ^ 53 ≤ n) :
    Large .positive n.log2 (Float.ofNat n).toModel.unpack := by
  have hslow : Float.ofNat n
      = .ofModel (.pack (UnpackedFloat.ofScientific .binary64 n (0 : Nat))) := by
    rw [Float.ofNat]
    change Float.ofScientific n false 0 = _
    rw [Float.ofScientific, dif_neg (by omega)]
    rfl
  rw [hslow]
  exact (large_scientific (by omega) (by omega)).stored (by omega)

/-- The check for a positive double that is at least one in size. -/
private def isLarge : UnpackedFloat → Bool
  | .finite .positive mantissa exponent _ => mantissa.log2 == 52 && decide (-52 ≤ exponent)
  | _ => false

private theorem large_of_isLarge {u : UnpackedFloat} (h : isLarge u = true) :
    Large .positive 0 u := by
  unfold isLarge at h
  split at h
  next hpos =>
    rw [Bool.and_eq_true, beq_iff_eq, decide_eq_true_eq] at h
    exact .finite hpos h.1 (by omega)
  next => cases h

/-- A power of ten is at least one. -/
theorem large_tenPow {n : Nat} (hn : n ≤ 308) :
    Large .positive 0 (Float.ofScientific 1 false n).toModel.unpack := by
  by_cases hfast : n ≤ 22
  · -- these powers are kept in a table
    have htable : ∀ n ≤ 22, isLarge (Float.ofScientific 1 false n).toModel.unpack = true := by
      decide
    exact large_of_isLarge (htable n hfast)
  · rw [Float.ofScientific, dif_neg (by omega)]
    exact (large_scientific Nat.one_pos (by omega)).stored (by decide)

/-! ### Comparisons and integer parts of large doubles -/

theorem ne_zero_of_large {sign : Sign} {k : Int} {x : Float}
    (hx : Large sign k x.toModel.unpack) : (x == 0.0) = false := by
  have hzero : (0.0 : Float).toModel.unpack = .zero .positive := by rfl
  change (x.toModel.unpack.compare (0.0 : Float).toModel.unpack == some .eq) = false
  rw [hzero]
  revert hx
  generalize x.toModel.unpack = u
  rintro (_ | _) <;> cases sign <;> rfl

/-- A large double has an integer part with its sign that is as large. -/
theorem exists_truncate_of_large {sign : Sign} {k : Nat} (hk : k ≤ 52) {x : Float}
    (hx : Large sign k x.toModel.unpack) : ∃ n : Nat, 2 ^ k ≤ n ∧ truncate x = sign.apply n := by
  obtain ⟨beyond, hbeyond, htruncate⟩ := exists_truncate_eq
  rw [htruncate]
  revert hx
  generalize x.toModel.unpack = u
  rintro (_ | ⟨hpos, hfull, hexponent⟩)
  · refine ⟨_, Nat.pow_le_pow_right Nat.two_pos (hk.trans (by omega : 52 ≤ beyond)), ?_⟩
    cases sign <;> rfl
  · rename_i mantissa exponent
    refine ⟨_, ?_, roundToInt_eq sign mantissa exponent⟩
    have hmantissa : 2 ^ 52 ≤ mantissa := hfull ▸ Nat.log2_self_le hpos.ne'
    rw [Nat.le_div_iff_mul_le (Nat.two_pow_pos _), ← Nat.pow_add]
    calc 2 ^ (k + (-exponent).toNat) ≤ 2 ^ (52 + exponent.toNat) :=
          Nat.pow_le_pow_right Nat.two_pos (by omega)
      _ = 2 ^ 52 * 2 ^ exponent.toNat := Nat.pow_add ..
      _ ≤ mantissa * 2 ^ exponent.toNat := Nat.mul_le_mul_right _ hmantissa

end SceneCanvas.Scalar
