import SceneCanvas.Proofs.Magnitude
import SceneCanvas.Proofs.Rounding

/-!
# Rounding keeps order

Of two numbers that are not negative, the larger one is not rounded to less, in any format: if both
need the same unit, the nearest numbers of units are in order, and otherwise a power of two lies
between them (`Scalar.Nearest.mono`). A number of the format is rounded to itself
(`Scalar.IsPart.nearest_self`, `Scalar.Nearest.eq_of_eq_mul`), so it bounds what is rounded from
below it.

Numbers of the format have the order of their parts (`Scalar.IsPart.compare_eq`). Unless the
exponent is too large for a word, they are stored as they are (`Scalar.unpack_pack`), and what is
read out of a word is such a number (`Scalar.isStorable_of_unpack`).
-/

namespace SceneCanvas.Scalar

open Float.Model
open Float.Model.UnpackedFloat

/-- Nearest integers are in order. -/
theorem IsNearestInt.mono {y y' : Rat} {n n' : Nat} (h : IsNearestInt y n)
    (h' : IsNearestInt y' n') (hle : y ≤ y') : n ≤ n' := by
  by_contra hlt
  have hnext : (n' : Rat) + 1 ≤ n := by exact_mod_cast Nat.not_le.mp hlt
  have hlow := (abs_le.mp h.le_half).1
  have hhigh := (abs_le.mp h'.le_half).2
  -- both are as far away as they may be, but only one of two neighbours is even
  have heven : Even n := h.even (by rw [abs_of_nonpos (by linarith)]; linarith)
  have heven' : Even n' := h'.even (by rw [abs_of_nonneg (by linarith)]; linarith)
  have hsucc : n = n' + 1 := by
    have hle : (n : Rat) ≤ n' + 1 := by linarith
    have hle' : n ≤ n' + 1 := by exact_mod_cast hle
    omega
  rw [Nat.even_iff] at heven heven'
  omega

theorem isNearestInt_natCast (n : Nat) : IsNearestInt n n where
  le_half := by norm_num
  even heq := by norm_num at heq

/-- What `v` is rounded to in a format in which exponents may be as large as they like. -/
def Nearest (spec : Format) (v q : Rat) : Prop :=
  ∃ (n : Nat) (e : Int), IsUnit spec v e ∧ IsNearestInt (v / 2 ^ e) n ∧ q = n * 2 ^ e

/-- A mantissa and an exponent in the form that a format has for them. -/
structure IsPart (spec : Format) (mantissa : Nat) (exponent : Int) : Prop where
  lt : mantissa < 2 ^ spec.mantissaBits
  least_le : spec.minExponent ≤ exponent
  full : exponent = spec.minExponent ∨ 2 ^ spec.mantissaBitsWithoutImplicit ≤ mantissa

theorem IsCanonical.isPart {mantissa : Nat} {exponent : Int} (h : IsCanonical mantissa exponent) :
    IsPart .binary64 mantissa exponent :=
  ⟨h.lt, h.least_le, h.full⟩

section

variable {spec : Format}

namespace IsUnit

variable {v v' : Rat} {e e' : Int}

/-- The numbers with a larger unit begin where those with a smaller one end. -/
theorem two_pow_mul_le (spec : Format) {e e' : Int} (hlt : e < e') :
    (2 : Rat) ^ spec.mantissaBits * 2 ^ e ≤ 2 ^ spec.mantissaBitsWithoutImplicit * 2 ^ e' := by
  have hpower : (2 : Rat) * 2 ^ e ≤ 2 ^ e' := by
    rw [← zpow_one_add₀ two_ne_zero]
    exact zpow_le_zpow_right₀ one_le_two (by omega)
  calc (2 : Rat) ^ spec.mantissaBits * 2 ^ e
      = 2 ^ spec.mantissaBitsWithoutImplicit * (2 * 2 ^ e) := by
        rw [Format.mantissaBits, pow_add]
        ring
    _ ≤ 2 ^ spec.mantissaBitsWithoutImplicit * 2 ^ e' :=
        mul_le_mul_of_nonneg_left hpower (by positivity)

/-- A number that is below the digits of one unit does not need a larger one. -/
theorem le_of_lt (h : IsUnit spec v e) (hleast : spec.minExponent ≤ e')
    (hlt : v < 2 ^ spec.mantissaBits * 2 ^ e') : e ≤ e' := by
  by_contra hgt
  have hfull := h.full.resolve_left (by omega)
  linarith [two_pow_mul_le spec (not_le.mp hgt)]

/-- The nearest number of units has all its digits, unless there is no smaller unit. -/
theorem full_nearest (h : IsUnit spec v e) {n : Nat} (hnear : IsNearestInt (v / 2 ^ e) n) :
    e = spec.minExponent ∨ 2 ^ spec.mantissaBitsWithoutImplicit ≤ n := by
  refine h.full.imp_right fun hfull => (isNearestInt_natCast _).mono hnear ?_
  rw [le_div_iff₀ (two_zpow_pos e)]
  exact_mod_cast hfull

end IsUnit

namespace Nearest

variable {v v' q q' : Rat}

/-- **The larger of two numbers** is not rounded to less. -/
theorem mono (h : Nearest spec v q) (h' : Nearest spec v' q') (hle : v ≤ v') : q ≤ q' := by
  obtain ⟨n, e, hunit, hnear, rfl⟩ := h
  obtain ⟨n', e', hunit', hnear', rfl⟩ := h'
  have hpos := two_zpow_pos e
  obtain hlt | rfl := (hunit.le_of_lt hunit'.least_le (hle.trans_lt hunit'.lt)).lt_or_eq
  · -- the first number is below a power of two, and the other one is not
    have hn : (n : Rat) ≤ 2 ^ spec.mantissaBits := by exact_mod_cast hunit.nearest_le hnear
    have hn' : (2 ^ spec.mantissaBitsWithoutImplicit : Rat) ≤ n' := by
      exact_mod_cast (hunit'.full_nearest hnear').resolve_left
        (by have := hunit.least_le; omega)
    calc (n : Rat) * 2 ^ e ≤ 2 ^ spec.mantissaBits * 2 ^ e :=
          mul_le_mul_of_nonneg_right hn hpos.le
      _ ≤ 2 ^ spec.mantissaBitsWithoutImplicit * 2 ^ e' := IsUnit.two_pow_mul_le spec hlt
      _ ≤ n' * 2 ^ e' := mul_le_mul_of_nonneg_right hn' (two_zpow_pos e').le
  · refine mul_le_mul_of_nonneg_right ?_ hpos.le
    exact_mod_cast hnear.mono hnear' (div_le_div_of_nonneg_right hle hpos.le)

theorem nonneg (h : Nearest spec v q) : 0 ≤ q := by
  obtain ⟨n, e, -, -, rfl⟩ := h
  positivity

/-- A number that needs no more digits than there are is rounded to itself. -/
theorem eq_of_eq_mul (h : Nearest spec v q) {k : Nat} {f : Int}
    (hk : k < 2 ^ spec.mantissaBits) (hf : spec.minExponent ≤ f) (hv : v = k * 2 ^ f) : q = v := by
  obtain ⟨n, e, hunit, hnear, rfl⟩ := h
  have hpos := two_zpow_pos e
  have hle : e ≤ f := by
    refine hunit.le_of_lt hf ?_
    rw [hv]
    exact mul_lt_mul_of_pos_right (by exact_mod_cast hk) (two_zpow_pos f)
  -- in its unit the number is an integer
  have hint : v / 2 ^ e = (k * 2 ^ (f - e).toNat : Nat) := by
    rw [hv, div_eq_iff hpos.ne']
    push_cast
    rw [mul_assoc, ← zpow_natCast, ← zpow_add₀ two_ne_zero]
    congr 2
    omega
  rw [hint] at hnear
  have heq : n = k * 2 ^ (f - e).toNat :=
    Nat.le_antisymm (hnear.mono (isNearestInt_natCast _) le_rfl)
      ((isNearestInt_natCast _).mono hnear le_rfl)
  rw [heq, ← hint, div_mul_cancel₀ _ hpos.ne']

end Nearest

/-- The number of such parts needs no more digits than there are. -/
theorem IsPart.nearest_self {m : Nat} {e : Int} (h : IsPart spec m e) :
    Nearest spec (m * 2 ^ e) (m * 2 ^ e) := by
  have hpos := two_zpow_pos e
  refine ⟨m, e, ⟨h.least_le, ?_, h.full.imp_right fun hfull => ?_⟩, ?_, rfl⟩
  · exact mul_lt_mul_of_pos_right (by exact_mod_cast h.lt) hpos
  · exact mul_le_mul_of_nonneg_right (by exact_mod_cast hfull) hpos.le
  · rw [mul_div_cancel_right₀ _ hpos.ne']
    exact isNearestInt_natCast m

/-- Of two numbers in this form the one with the larger exponent is larger. -/
theorem IsPart.lt_of_exponent_lt {m m' : Nat} {e e' : Int} (h : IsPart spec m e)
    (h' : IsPart spec m' e') (hexponent : e < e') : (m : Rat) * 2 ^ e < m' * 2 ^ e' := by
  have hfull := h'.full.resolve_left (by have := h.least_le; omega)
  calc (m : Rat) * 2 ^ e < 2 ^ spec.mantissaBits * 2 ^ e :=
        mul_lt_mul_of_pos_right (by exact_mod_cast h.lt) (two_zpow_pos e)
    _ ≤ 2 ^ spec.mantissaBitsWithoutImplicit * 2 ^ e' := IsUnit.two_pow_mul_le spec hexponent
    _ ≤ m' * 2 ^ e' :=
        mul_le_mul_of_nonneg_right (by exact_mod_cast hfull) (two_zpow_pos e').le

/-- **Numbers in this form** are in the order of their exponents first. -/
theorem IsPart.compare_eq {m m' : Nat} {e e' : Int} (h : IsPart spec m e)
    (h' : IsPart spec m' e') :
    (compare e e').then (compare m m') = compare ((m : Rat) * 2 ^ e) (m' * 2 ^ e') := by
  obtain hlt | rfl | hgt := lt_trichotomy e e'
  · rw [compare_lt_iff_lt.mpr hlt, compare_lt_iff_lt.mpr (h.lt_of_exponent_lt h' hlt)]
    rfl
  · have hpos := two_zpow_pos e
    rw [compare_eq_iff_eq.mpr rfl]
    change compare m m' = _
    obtain hlt | rfl | hgt := lt_trichotomy m m'
    · rw [compare_lt_iff_lt.mpr hlt,
        compare_lt_iff_lt.mpr (mul_lt_mul_of_pos_right (by exact_mod_cast hlt) hpos)]
    · rw [compare_eq_iff_eq.mpr rfl, compare_eq_iff_eq.mpr rfl]
    · rw [compare_gt_iff_gt.mpr hgt,
        compare_gt_iff_gt.mpr (mul_lt_mul_of_pos_right (by exact_mod_cast hgt) hpos)]
  · rw [compare_gt_iff_gt.mpr hgt, compare_gt_iff_gt.mpr (h'.lt_of_exponent_lt h hgt)]
    rfl

/-- **Rounding** gives the parts of the nearest number. -/
theorem exists_isPart (spec : Format) (sign : Sign) {mantissa : Nat} {exponent : Int}
    (hdigits : exponent ≤ spec.minExponent ∨ spec.mantissaBitsWithoutImplicit ≤ mantissa.log2) :
    ∃ m e, roundWithAccuracy spec sign mantissa exponent .exact = ofParts sign m e ∧
      IsPart spec m e ∧ Nearest spec (mantissa * 2 ^ exponent) (m * 2 ^ e) := by
  obtain ⟨n, e, hunit, hnear, ⟨hfits, hrounded⟩ | ⟨rfl, hrounded⟩⟩ :=
    exists_roundWithAccuracy_eq spec sign (represents_exact mantissa) hdigits
  · exact ⟨n, e, hrounded, ⟨hfits, hunit.least_le, hunit.full_nearest hnear⟩,
      n, e, hunit, hnear, rfl⟩
  · have hbits : spec.mantissaBits = 1 + spec.mantissaBitsWithoutImplicit := rfl
    have hleast := hunit.least_le
    refine ⟨_, e + 1, hrounded, ⟨?_, by omega, .inr le_rfl⟩, _, e, hunit, hnear, ?_⟩
    · exact Nat.pow_lt_pow_right Nat.one_lt_two (by omega)
    · rw [hbits, zpow_add₀ two_ne_zero]
      push_cast
      ring

end

/-! ### Storing -/

/-- Parts with an exponent that a word has room for. -/
structure IsStorable (spec : Format) (mantissa : Nat) (exponent : Int) : Prop
    extends IsPart spec mantissa exponent where
  fits : exponent + spec.exponentBias + spec.mantissaBitsWithoutImplicit + 1
    < 2 ^ spec.exponentBits

/-- The least exponent is that of the word for one. -/
theorem minExponent_add (spec : Format) :
    spec.minExponent + spec.exponentBias + spec.mantissaBitsWithoutImplicit = 1 := by
  have hpos : 1 ≤ 2 ^ (spec.exponentBits - 1) := Nat.one_le_two_pow
  rw [Format.minExponent, Format.mantissaBits, Format.exponentBias, Nat.cast_sub hpos]
  push_cast
  ring

theorem ne_neg_one_of_toNat_lt {n : Nat} {x : BitVec n} (h : x.toNat + 1 < 2 ^ n) : x ≠ -1#n := by
  rintro rfl
  rw [BitVec.neg_one_eq_allOnes, BitVec.toNat_allOnes] at h
  omega

/-- A word whose exponent says no more than that there is a first digit. -/
theorem unpack_packComponents_zero (spec : Format) (sign : Sign) {m : Nat}
    (hm : m < 2 ^ spec.mantissaBitsWithoutImplicit) :
    unpack spec (packComponents spec sign 0#_ (BitVec.ofNat _ m))
      = ofParts sign m spec.minExponent := by
  have hexponent : ((BitVec.ofNat spec.exponentBits 0).toNat : Int)
      - (spec.exponentBias + spec.mantissaBitsWithoutImplicit) + 1 = spec.minExponent := by
    rw [BitVec.toNat_zero]
    have := minExponent_add spec
    omega
  have hzero : BitVec.ofNat spec.exponentBits 0 ≠ -1#_ := ne_neg_one_of_toNat_lt (by
    rw [BitVec.toNat_zero]
    exact Nat.one_lt_two_pow spec.he.ne')
  have hvalue : (BitVec.ofNat spec.mantissaBitsWithoutImplicit m).toNat = m := by
    rw [BitVec.toNat_ofNat, Nat.mod_eq_of_lt hm]
  unfold UnpackedFloat.unpack
  dsimp only
  rw [unpackExponent_packComponents, if_neg hzero, if_pos rfl]
  simp only [unpackMantissa_packComponents, unpackSign_packComponents, Sign.ofBitVec_toBitVec,
    hvalue, hexponent]
  unfold ofParts
  by_cases h : m = 0
  · subst h
    rfl
  · have hne : BitVec.ofNat spec.mantissaBitsWithoutImplicit m ≠ 0#_ := fun heq =>
      h (hvalue.symm.trans (by rw [heq, BitVec.toNat_zero]))
    rw [dif_neg hne, dif_neg h]

/-- A word with a first digit that is not written down. -/
theorem unpack_packComponents_full (spec : Format) (sign : Sign) {m biased : Nat}
    (hfull : 2 ^ spec.mantissaBitsWithoutImplicit ≤ m) (hlt : m < 2 ^ spec.mantissaBits)
    (hsome : biased ≠ 0) (hmax : biased + 1 < 2 ^ spec.exponentBits) :
    unpack spec (packComponents spec sign (BitVec.ofNat _ biased) (BitVec.ofNat _ m))
      = ofParts sign m (biased - (spec.exponentBias + spec.mantissaBitsWithoutImplicit)) := by
  have hvalue : (BitVec.ofNat spec.exponentBits biased).toNat = biased := by
    rw [BitVec.toNat_ofNat, Nat.mod_eq_of_lt (by omega)]
  have hones : BitVec.ofNat spec.exponentBits biased ≠ -1#_ :=
    ne_neg_one_of_toNat_lt (by rwa [hvalue])
  have hzero : BitVec.ofNat spec.exponentBits biased ≠ 0#_ := fun heq =>
    hsome (hvalue.symm.trans (by rw [heq, BitVec.toNat_zero]))
  have hmantissa : (1#1 ++ BitVec.ofNat spec.mantissaBitsWithoutImplicit m).toNat = m := by
    rw [Format.mantissaBits, Nat.pow_add, pow_one] at hlt
    rw [toNat_one_append, BitVec.toNat_ofNat, Nat.mod_eq_sub_mod hfull,
      Nat.mod_eq_of_lt (by omega), Nat.add_sub_cancel' hfull]
  unfold UnpackedFloat.unpack
  dsimp only
  rw [unpackExponent_packComponents, if_neg hones, if_neg hzero]
  simp only [unpackMantissa_packComponents, unpackSign_packComponents, Sign.ofBitVec_toBitVec,
    hvalue, hmantissa]
  rw [ofParts, dif_neg (by have := Nat.two_pow_pos spec.mantissaBitsWithoutImplicit; omega)]

/-- **What has been rounded is stored as it is**, if the exponent is not too large. -/
theorem unpack_pack (spec : Format) (sign : Sign) {m : Nat} {e : Int} (h : IsStorable spec m e) :
    unpack spec (UnpackedFloat.pack spec (ofParts sign m e)) = ofParts sign m e := by
  have hbits : spec.mantissaBits = 1 + spec.mantissaBitsWithoutImplicit := rfl
  have hleast := minExponent_add spec
  have hlow := h.least_le
  obtain ⟨biased, hbiased⟩ : ∃ biased : Nat,
      e + spec.exponentBias + spec.mantissaBitsWithoutImplicit = biased :=
    Int.eq_ofNat_of_zero_le (by omega)
  have hmax : biased + 1 < 2 ^ spec.exponentBits := by
    have hfits := h.fits
    rw [hbiased] at hfits
    exact_mod_cast hfits
  by_cases hzero : m = 0
  · subst hzero
    obtain rfl : e = spec.minExponent := h.full.resolve_right (by simp)
    exact unpack_packComponents_zero spec sign (Nat.two_pow_pos _)
  have hstored : UnpackedFloat.pack spec (ofParts sign m e)
      = if m.log2 + 1 = spec.mantissaBits then
          packComponents spec sign (BitVec.ofNat _ biased) (BitVec.ofNat _ m)
        else packComponents spec sign 0#_ (BitVec.ofNat _ m) := by
    rw [ofParts, dif_neg hzero, UnpackedFloat.pack, hbiased, Int.toNat_natCast,
      if_neg (Nat.not_le.mpr hmax)]
  rw [hstored]
  by_cases hfull : 2 ^ spec.mantissaBitsWithoutImplicit ≤ m
  · have hlog : m.log2 + 1 = spec.mantissaBits := by
      have := (Nat.log2_lt hzero).mpr h.lt
      have := (Nat.le_log2 hzero).mpr hfull
      omega
    have hexponent : (biased : Int)
        - (spec.exponentBias + spec.mantissaBitsWithoutImplicit) = e := by omega
    rw [if_pos hlog, unpack_packComponents_full spec sign hfull h.lt (by omega) hmax, hexponent]
  · obtain rfl := h.full.resolve_right hfull
    have hlog : ¬ m.log2 + 1 = spec.mantissaBits := by
      have := (Nat.log2_lt hzero).mpr (Nat.not_le.mp hfull)
      omega
    rw [if_neg hlog]
    exact unpack_packComponents_zero spec sign (Nat.not_le.mp hfull)

/-- What is read out of a word can be stored. -/
theorem isStorable_of_unpack {spec : Format} (hbits : 2 ≤ spec.exponentBits)
    {word : BitVec spec.numBits} {sign : Sign} {m : Nat} {e : Int} {hpos : 0 < m}
    (h : unpack spec word = .finite sign m e hpos) : IsStorable spec m e := by
  have hleast := minExponent_add spec
  have hlt : (unpackMantissa word).toNat < 2 ^ spec.mantissaBitsWithoutImplicit :=
    (unpackMantissa word).isLt
  have hdouble : 2 ^ spec.mantissaBits = 2 * 2 ^ spec.mantissaBitsWithoutImplicit := by
    rw [Format.mantissaBits, Nat.pow_add, pow_one]
  have hroom : (4 : Int) ≤ 2 ^ spec.exponentBits := by
    exact_mod_cast Nat.pow_le_pow_right two_pos hbits
  unfold UnpackedFloat.unpack at h
  dsimp only at h
  split at h
  next => split at h <;> cases h
  next hones =>
    split at h
    next hzero =>
      split at h
      next => cases h
      next =>
        obtain ⟨-, rfl, rfl⟩ := UnpackedFloat.finite.inj h
        rw [hzero, BitVec.toNat_zero]
        exact ⟨⟨by omega, by omega, .inl (by omega)⟩, by omega⟩
    next hne =>
      obtain ⟨-, rfl, rfl⟩ := UnpackedFloat.finite.inj h
      have hsome : (unpackExponent word).toNat ≠ 0 := fun heq =>
        hne (BitVec.eq_of_toNat_eq (by rw [heq, BitVec.toNat_zero]))
      have hbelow : ((unpackExponent word).toNat : Int) + 1 < 2 ^ spec.exponentBits := by
        have hword := (unpackExponent word).isLt
        have hlast : (unpackExponent word).toNat + 1 ≠ 2 ^ spec.exponentBits := fun heq =>
          hones (BitVec.eq_of_toNat_eq (by
            rw [BitVec.neg_one_eq_allOnes, BitVec.toNat_allOnes, ← heq, Nat.add_sub_cancel]))
        exact_mod_cast Nat.lt_of_le_of_ne hword hlast
      have himplicit : (1#1 ++ unpackMantissa word).toNat
          = 2 ^ spec.mantissaBitsWithoutImplicit + (unpackMantissa word).toNat :=
        toNat_one_append _
      exact ⟨⟨by omega, by omega, .inr (by omega)⟩, by omega⟩

end SceneCanvas.Scalar
