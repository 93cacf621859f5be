import Mathlib

/-!
# Rounding

The operations on doubles compute a mantissa with two more digits, round it to an integer, and shift
once more if that gave a digit too many. Here this is compared with exact arithmetic: what a mantissa
and its two digits stand for is a rational number (`Scalar.Represents`), rounding takes an integer
nearest to it (`Scalar.Represents.isNearestInt`), in the unit that leaves as many digits before the
point as the format has (`Scalar.exists_roundWithAccuracy_eq`). So of all numbers with 53 digits and
an exponent that is not too small, none is nearer than the double that rounding gives
(`Scalar.exists_roundWithAccuracy`). Exponents that are too large play no part yet.

From this follows what is rounded by a product, by a quotient and by a number with any number of
digits (`Scalar.exists_mul`, `Scalar.exists_div`, `Scalar.exists_round`).
-/

namespace SceneCanvas.Scalar

open Float.Model
open Float.Model.UnpackedFloat

/-! ### Rounding to an integer -/

/-- A nearest integer, and the even one of two. -/
structure IsNearestInt (y : Rat) (n : Nat) : Prop where
  le_half : |y - n| ≤ 1 / 2
  even : |y - n| = 1 / 2 → Even n

namespace IsNearestInt

variable {y : Rat} {n : Nat} (h : IsNearestInt y n)

include h

/-- Another integer is at least as far away. -/
theorem half_le {k : Nat} (hk : k ≠ n) : 1 / 2 ≤ |y - k| := by
  have hapart : (1 : Rat) ≤ |(n : Rat) - k| := by
    have hint : (1 : Int) ≤ |(n : Int) - k| := Int.one_le_abs (by omega)
    exact_mod_cast hint
  have htriangle : |(n : Rat) - k| ≤ |y - k| + |y - n| := by
    have hsplit : (n : Rat) - k = (y - k) - (y - n) := by ring
    rw [hsplit]
    exact abs_sub _ _
  have := h.le_half
  linarith

theorem abs_sub_le (k : Nat) : |y - n| ≤ |y - k| := by
  by_cases hk : k = n
  · rw [hk]
  · exact h.le_half.trans (h.half_le hk)

theorem even_of_abs_sub_eq {k : Nat} (hk : k ≠ n) (heq : |y - k| = |y - n|) : Even n :=
  h.even (le_antisymm h.le_half (heq ▸ h.half_le hk))

end IsNearestInt

/-! ### Mantissas with two more digits -/

/-- The first digit behind the point. -/
def firstDigit (em : ExtendedMantissa) : Rat := if em.roundBit then 1 / 2 else 0

/-- The number that a mantissa stands for: it is known up to the first digit behind the point, and
whether there is anything after that. -/
structure Represents (em : ExtendedMantissa) (y : Rat) : Prop where
  le : em.mantissa + firstDigit em ≤ y
  lt : y < em.mantissa + firstDigit em + 1 / 2
  sticky : em.stickyBit = true ↔ em.mantissa + firstDigit em < y

namespace Represents

variable {em : ExtendedMantissa} {y : Rat}

theorem mantissa_le (h : Represents em y) : em.mantissa ≤ y := by
  have hfirst : 0 ≤ firstDigit em := by
    unfold firstDigit
    split <;> norm_num
  linarith [h.le]

theorem lt_mantissa_add_one (h : Represents em y) : y < em.mantissa + 1 := by
  have hfirst : firstDigit em ≤ 1 / 2 := by
    unfold firstDigit
    split <;> norm_num
  linarith [h.lt]

theorem shiftRightOne (h : Represents em y) : Represents em.shiftRightOne (y / 2) := by
  obtain ⟨hle, hlt, hsticky⟩ := h
  obtain ⟨mantissa, roundBit, stickyBit⟩ := em
  have hsplit : (mantissa : Rat) = 2 * (mantissa / 2 : Nat) + (mantissa % 2 : Nat) := by
    exact_mod_cast (Nat.div_add_mod mantissa 2).symm
  -- the digit that is shifted out becomes the first one behind the point
  have hfirst : firstDigit (ExtendedMantissa.shiftRightOne ⟨mantissa, roundBit, stickyBit⟩)
      = (mantissa % 2 : Nat) / 2 := by
    obtain hmod | hmod := Nat.mod_two_eq_zero_or_one mantissa <;>
      simp [firstDigit, ExtendedMantissa.shiftRightOne, hmod]
  have hmantissa : (ExtendedMantissa.shiftRightOne ⟨mantissa, roundBit, stickyBit⟩).mantissa
      = mantissa / 2 := rfl
  have hrest : (ExtendedMantissa.shiftRightOne ⟨mantissa, roundBit, stickyBit⟩).stickyBit
      = (roundBit || stickyBit) := rfl
  dsimp only at hle hlt hsticky
  refine ⟨?_, ?_, ?_⟩
  all_goals rw [hfirst, hmantissa]
  all_goals cases roundBit <;> simp only [firstDigit, if_true, Bool.false_eq_true, if_false] at *
  · linarith
  · linarith
  · linarith
  · linarith
  · rw [hrest, Bool.false_or, hsticky]
    constructor <;> intro <;> linarith
  · rw [hrest, Bool.true_or, eq_self, true_iff]
    linarith

theorem shiftRight (h : Represents em y) (n : Nat) : Represents (em >>> n) (y / 2 ^ n) := by
  change Represents (n.repeat ExtendedMantissa.shiftRightOne em) _
  induction n with
  | zero => rwa [pow_zero, div_one]
  | succ n ih =>
    rw [pow_succ, ← div_div]
    exact ih.shiftRightOne

/-- **Rounding** takes a nearest integer. -/
theorem isNearestInt (h : Represents em y) : IsNearestInt y em.roundedMantissa := by
  obtain ⟨hle, hlt, hsticky⟩ := h
  obtain ⟨mantissa, roundBit, stickyBit⟩ := em
  dsimp only at hle hlt hsticky
  cases roundBit <;> cases stickyBit <;>
    simp only [firstDigit, if_true, Bool.false_eq_true, if_false, false_iff, true_iff, not_lt,
      add_zero] at hle hlt hsticky
  case false.false =>
    have hzero : y - mantissa = 0 := by linarith
    change IsNearestInt y mantissa
    refine ⟨?_, fun heven => ?_⟩ <;> rw [hzero, abs_zero] at *
    · norm_num
    · norm_num at heven
  case false.true =>
    have hlow : |y - mantissa| < 1 / 2 := abs_lt.mpr ⟨by linarith, by linarith⟩
    exact ⟨hlow.le, fun heven => absurd heven hlow.ne⟩
  case true.false =>
    have hhalf : y - mantissa = 1 / 2 := by linarith
    change IsNearestInt y (mantissa + mantissa % 2)
    have hodd : Even (mantissa + mantissa % 2) := by
      rw [Nat.even_iff]
      omega
    refine ⟨?_, fun _ => hodd⟩
    obtain hmod | hmod := Nat.mod_two_eq_zero_or_one mantissa <;> rw [hmod] <;> push_cast
    · rw [add_zero, hhalf, abs_of_pos (by norm_num)]
    · have hup : y - (mantissa + 1) = -(1 / 2) := by linarith
      rw [hup, abs_neg, abs_of_pos (by norm_num)]
  case true.true =>
    change IsNearestInt y (mantissa + 1)
    have hhigh : |y - (mantissa + 1 : Nat)| < 1 / 2 := by
      push_cast
      exact abs_lt.mpr ⟨by linarith, by linarith⟩
    exact ⟨hhigh.le, fun heven => absurd heven hhigh.ne⟩

end Represents

/-- A mantissa with nothing behind the point. -/
theorem represents_exact (mantissa : Nat) :
    Represents (.ofMantissaAndAccuracy mantissa .exact) mantissa := by
  have hfirst : firstDigit (.ofMantissaAndAccuracy mantissa .exact) = 0 := rfl
  have hmantissa : (ExtendedMantissa.ofMantissaAndAccuracy mantissa .exact).mantissa = mantissa :=
    rfl
  refine ⟨?_, ?_, ?_⟩
  all_goals rw [hfirst, hmantissa, add_zero]
  · linarith
  · exact ⟨nofun, fun h => absurd h (lt_irrefl _)⟩

/-- A mantissa with something behind the point. How that compares with a half is all that is kept
of it. -/
theorem represents_inexact (mantissa : Nat) {rest : Rat} (hpos : 0 < rest) (hlt : rest < 1) :
    Represents (.ofMantissaAndAccuracy mantissa (.inexact (compare rest (1 / 2))))
      (mantissa + rest) := by
  cases hcompare : compare rest (1 / 2) with
  | lt =>
    have hhalf : rest < 1 / 2 := compare_lt_iff_lt.mp hcompare
    have hfirst : firstDigit (.ofMantissaAndAccuracy mantissa (.inexact .lt)) = 0 := rfl
    refine ⟨?_, ?_, ?_⟩
    all_goals rw [hfirst, add_zero]
    all_goals dsimp only [ExtendedMantissa.ofMantissaAndAccuracy]
    · linarith
    · linarith
    · exact ⟨fun _ => by linarith, fun _ => rfl⟩
  | eq =>
    obtain rfl : rest = 1 / 2 := compare_eq_iff_eq.mp hcompare
    have hfirst : firstDigit (.ofMantissaAndAccuracy mantissa (.inexact .eq)) = 1 / 2 := rfl
    refine ⟨?_, ?_, ?_⟩
    all_goals rw [hfirst]
    all_goals dsimp only [ExtendedMantissa.ofMantissaAndAccuracy]
    · linarith
    · linarith
    · exact ⟨nofun, fun h => absurd h (lt_irrefl _)⟩
  | gt =>
    have hhalf : 1 / 2 < rest := compare_gt_iff_gt.mp hcompare
    have hfirst : firstDigit (.ofMantissaAndAccuracy mantissa (.inexact .gt)) = 1 / 2 := rfl
    refine ⟨?_, ?_, ?_⟩
    all_goals rw [hfirst]
    all_goals dsimp only [ExtendedMantissa.ofMantissaAndAccuracy]
    · linarith
    · linarith
    · exact ⟨fun _ => by linarith, fun _ => rfl⟩

/-- Whether a remainder is more than half the divisor can be told without dividing. -/
private theorem compare_two_mul (rest : Nat) {n : Nat} (hn : 0 < n) :
    compare (2 * rest) n = compare ((rest : Rat) / n) (1 / 2) := by
  have hpos : (0 : Rat) < n := Nat.cast_pos.mpr hn
  obtain hlt | heq | hgt := Nat.lt_trichotomy (2 * rest) n
  · have hhalf : (rest : Rat) / n < 1 / 2 := by
      rw [div_lt_div_iff₀ hpos two_pos, one_mul]
      exact_mod_cast (by omega : rest * 2 < n)
    rw [compare_lt_iff_lt.mpr hlt, compare_lt_iff_lt.mpr hhalf]
  · have hhalf : (rest : Rat) / n = 1 / 2 := by
      rw [div_eq_div_iff hpos.ne' two_ne_zero, one_mul]
      exact_mod_cast (by omega : rest * 2 = n)
    rw [compare_eq_iff_eq.mpr heq, compare_eq_iff_eq.mpr hhalf]
  · have hhalf : 1 / 2 < (rest : Rat) / n := by
      rw [div_lt_div_iff₀ two_pos hpos, one_mul]
      exact_mod_cast (by omega : n < rest * 2)
    rw [compare_gt_iff_gt.mpr hgt, compare_gt_iff_gt.mpr hhalf]

/-- The mantissa of a quotient. -/
theorem represents_div (m : Nat) {n : Nat} (hn : 0 < n) :
    Represents (.ofMantissaAndAccuracy (m / n) (accuracyOfFraction (m % n) n)) (m / n) := by
  have hpos : (0 : Rat) < n := Nat.cast_pos.mpr hn
  have hsplit : (m : Rat) / n = (m / n : Nat) + (m % n : Nat) / n := by
    rw [div_eq_iff hpos.ne', add_mul, div_mul_cancel₀ _ hpos.ne']
    exact_mod_cast (Nat.div_add_mod' m n).symm
  rw [hsplit]
  unfold accuracyOfFraction
  split
  next hzero =>
    rw [hzero, Nat.cast_zero, zero_div, add_zero]
    exact represents_exact _
  next hne =>
    rw [compare_two_mul _ hn]
    refine represents_inexact _ (div_pos (Nat.cast_pos.mpr (Nat.pos_of_ne_zero hne)) hpos) ?_
    rw [div_lt_one hpos]
    exact_mod_cast Nat.mod_lt m hn

/-! ### The doubles near a number -/

/-- A mantissa of 53 digits and an exponent, in the form that a double has: the mantissa has all its
digits unless the exponent is the least one. -/
structure IsCanonical (mantissa : Nat) (exponent : Int) : Prop where
  lt : mantissa < 2 ^ 53
  least_le : -1074 ≤ exponent
  full : exponent = -1074 ∨ 2 ^ 52 ≤ mantissa

/-- The canonical number nearest to `v`, and the even one of two. -/
structure IsRounding (v : Rat) (mantissa : Nat) (exponent : Int) : Prop
    extends IsCanonical mantissa exponent where
  abs_sub_le : ∀ (k : Nat) (f : Int), k < 2 ^ 53 → -1074 ≤ f →
    |v - mantissa * 2 ^ exponent| ≤ |v - k * 2 ^ f|
  even : ∀ (k : Nat) (f : Int), k < 2 ^ 53 → -1074 ≤ f →
    |v - k * 2 ^ f| = |v - mantissa * 2 ^ exponent| →
    (k : Rat) * 2 ^ f ≠ mantissa * 2 ^ exponent → Even mantissa

/-- A canonical number is rounded to itself. -/
theorem IsCanonical.isRounding {mantissa : Nat} {exponent : Int}
    (h : IsCanonical mantissa exponent) : IsRounding (mantissa * 2 ^ exponent) mantissa exponent where
  toIsCanonical := h
  abs_sub_le k f _ _ := by
    rw [sub_self, abs_zero]
    exact abs_nonneg _
  even k f _ _ heq hne := by
    rw [sub_self, abs_zero, abs_eq_zero, sub_eq_zero] at heq
    exact absurd heq.symm hne

/-- Zero is rounded to zero. -/
theorem isRounding_zero : IsRounding 0 0 (-1074) := by
  have hzero : IsCanonical 0 (-1074) := ⟨by norm_num, le_rfl, .inl rfl⟩
  simpa only [Nat.cast_zero, zero_mul] using hzero.isRounding

theorem two_zpow_pos (e : Int) : (0 : Rat) < 2 ^ e := zpow_pos two_pos e

theorem mul_two_zpow_nonneg (m : Nat) (e : Int) : (0 : Rat) ≤ m * 2 ^ e :=
  mul_nonneg m.cast_nonneg (two_zpow_pos e).le

theorem mul_two_zpow_pos {m : Nat} (hm : m ≠ 0) (e : Int) : (0 : Rat) < m * 2 ^ e :=
  mul_pos (by exact_mod_cast Nat.pos_of_ne_zero hm) (two_zpow_pos e)

/-- A number of at most 53 digits is below those of 53 digits with a larger exponent. -/
theorem mul_two_zpow_lt {k : Nat} {f e : Int} (hk : k < 2 ^ 53) (h : f < e) :
    (k : Rat) * 2 ^ f < 2 ^ 52 * 2 ^ e := by
  calc (k : Rat) * 2 ^ f < 2 ^ 53 * 2 ^ f :=
        mul_lt_mul_of_pos_right (by exact_mod_cast hk) (two_zpow_pos f)
    _ = 2 ^ 52 * 2 ^ (f + 1) := by rw [zpow_add₀ two_ne_zero]; ring
    _ ≤ 2 ^ 52 * 2 ^ e :=
        mul_le_mul_of_nonneg_left (zpow_le_zpow_right₀ one_le_two (by omega)) (by norm_num)

/-- A number in smaller units. -/
theorem mul_two_zpow_eq_shiftLeft (m n : Nat) (e : Int) :
    (m : Rat) * 2 ^ e = (m <<< n : Nat) * 2 ^ (e - n) := by
  rw [Nat.shiftLeft_eq, Nat.cast_mul, Nat.cast_pow, Nat.cast_ofNat, mul_assoc, ← zpow_natCast,
    ← zpow_add₀ two_ne_zero, add_sub_cancel]

/-- A difference in units of a power of two. -/
private theorem abs_sub_mul_two_zpow (v x : Rat) (e : Int) :
    |v - x * 2 ^ e| = |v / 2 ^ e - x| * 2 ^ e := by
  have hpos := two_zpow_pos e
  rw [← abs_of_pos hpos, ← abs_mul, abs_of_pos hpos, sub_mul, div_mul_cancel₀ _ hpos.ne']

/-- No number with 53 digits is nearer than the nearest multiple of the unit. -/
theorem IsNearestInt.abs_sub_le_and_even {v : Rat} {n : Nat} {e : Int}
    (h : IsNearestInt (v / 2 ^ e) n) (hfull : e = -1074 ∨ 2 ^ 52 * 2 ^ e ≤ v) {k : Nat} {f : Int}
    (hk : k < 2 ^ 53) (hf : -1074 ≤ f) :
    |v - n * 2 ^ e| ≤ |v - k * 2 ^ f| ∧
      (|v - k * 2 ^ f| = |v - n * 2 ^ e| → (k : Rat) * 2 ^ f ≠ n * 2 ^ e → Even n) := by
  by_cases hle : e ≤ f
  · -- the other number is a multiple of the unit, too
    have hmultiple : (k : Rat) * 2 ^ f = (k * 2 ^ (f - e).toNat : Nat) * 2 ^ e := by
      push_cast
      rw [mul_assoc, ← zpow_natCast, ← zpow_add₀ two_ne_zero]
      congr 2
      omega
    rw [hmultiple, abs_sub_mul_two_zpow, abs_sub_mul_two_zpow]
    refine ⟨mul_le_mul_of_nonneg_right (h.abs_sub_le _) (two_zpow_pos e).le, fun heq hne => ?_⟩
    refine h.even_of_abs_sub_eq (fun hsame => hne ?_)
      (mul_right_cancel₀ (two_zpow_pos e).ne' heq)
    rw [hsame]
  · -- the other number lies below all those that need the unit
    have hlow : 2 ^ 52 * 2 ^ e ≤ v := hfull.resolve_left (by omega)
    have hbelow := mul_two_zpow_lt hk (not_le.mp hle)
    have hnear : |v - n * 2 ^ e| ≤ |v - (2 ^ 52 : Nat) * 2 ^ e| := by
      rw [abs_sub_mul_two_zpow, abs_sub_mul_two_zpow]
      exact mul_le_mul_of_nonneg_right (h.abs_sub_le _) (two_zpow_pos e).le
    rw [Nat.cast_pow, Nat.cast_ofNat,
      abs_of_nonneg (by linarith : 0 ≤ v - 2 ^ 52 * 2 ^ e)] at hnear
    have hfar : |v - k * 2 ^ f| = v - k * 2 ^ f := abs_of_nonneg (by linarith)
    rw [hfar]
    exact ⟨by linarith, fun heq => by linarith⟩

/-- **A number rounded to a multiple of its unit** is the nearest one. If rounding gave one digit
more, the unit is doubled. -/
theorem IsNearestInt.exists_isRounding {v : Rat} {n : Nat} {e : Int}
    (h : IsNearestInt (v / 2 ^ e) n) (hleast : -1074 ≤ e) (hlt : v < 2 ^ 53 * 2 ^ e)
    (hfull : e = -1074 ∨ 2 ^ 52 * 2 ^ e ≤ v) :
    (n < 2 ^ 53 ∧ IsRounding v n e) ∨ (n = 2 ^ 53 ∧ IsRounding v (2 ^ 52) (e + 1)) := by
  have hpos := two_zpow_pos e
  have hle : n ≤ 2 ^ 53 := by
    have hy : v / 2 ^ e < 2 ^ 53 := (div_lt_iff₀ hpos).mpr hlt
    have hnear := (abs_le.mp h.le_half).1
    by_contra hlarge
    have hlarge' : (2 ^ 53 + 1 : Rat) ≤ n := by exact_mod_cast Nat.not_le.mp hlarge
    linarith
  have hfull' : e = -1074 ∨ 2 ^ 52 ≤ n := by
    refine hfull.imp_right fun hlow => ?_
    have hy : 2 ^ 52 ≤ v / 2 ^ e := (le_div_iff₀ hpos).mpr hlow
    have hnear := (abs_le.mp h.le_half).2
    by_contra hsmall
    have hsmall' : (n : Rat) + 1 ≤ 2 ^ 52 := by exact_mod_cast Nat.not_le.mp hsmall
    linarith
  have hnearest (k : Nat) (f : Int) (hk : k < 2 ^ 53) (hf : -1074 ≤ f) :=
    h.abs_sub_le_and_even hfull hk hf
  obtain hfits | rfl := hle.lt_or_eq
  · exact .inl ⟨hfits, ⟨⟨hfits, hleast, hfull'⟩, fun k f hk hf => (hnearest k f hk hf).1,
      fun k f hk hf => (hnearest k f hk hf).2⟩⟩
  · have hsame : ((2 ^ 53 : Nat) : Rat) * 2 ^ e = (2 ^ 52 : Nat) * 2 ^ (e + 1) := by
      rw [zpow_add₀ two_ne_zero]
      push_cast
      ring
    rw [hsame] at hnearest
    exact .inr ⟨rfl, ⟨⟨by norm_num, by omega, .inr le_rfl⟩, fun k f hk hf => (hnearest k f hk hf).1,
      fun _ _ _ _ _ _ => by decide⟩⟩

/-! ### Rounding -/

/-- The double with these parts. Without a mantissa it is zero. -/
def ofParts (sign : Sign) (mantissa : Nat) (exponent : Int) : UnpackedFloat :=
  if h : mantissa = 0 then .zero sign
  else .finite sign mantissa exponent (Nat.pos_of_ne_zero h)

theorem neg_ofParts (sign : Sign) (mantissa : Nat) (exponent : Int) :
    (ofParts sign mantissa exponent).neg = ofParts (-sign) mantissa exponent := by
  rw [ofParts, ofParts]
  split <;> rfl

private theorem shiftToTarget_eq (spec : Format) (mantissa : Nat) (exponent : Int)
    (accuracy : Accuracy) :
    shiftToTargetExponent spec mantissa exponent accuracy
      = (ExtendedMantissa.ofMantissaAndAccuracy mantissa accuracy >>>
          (spec.targetExponent (totalExponent mantissa exponent) - exponent).toNat,
        exponent + (spec.targetExponent (totalExponent mantissa exponent) - exponent).toNat) := rfl

/-- The number `v` in units of `2 ^ e` has as many digits before the point as a mantissa, and fewer
only if there is no smaller unit. -/
structure IsUnit (spec : Format) (v : Rat) (e : Int) : Prop where
  least_le : spec.minExponent ≤ e
  lt : v < 2 ^ spec.mantissaBits * 2 ^ e
  full : e = spec.minExponent ∨ 2 ^ spec.mantissaBitsWithoutImplicit * 2 ^ e ≤ v

/-- The nearest number of units has one digit too many at most. -/
theorem IsUnit.nearest_le {spec : Format} {v : Rat} {e : Int} (h : IsUnit spec v e) {n : Nat}
    (hnear : IsNearestInt (v / 2 ^ e) n) : n ≤ 2 ^ spec.mantissaBits := by
  have hy : v / 2 ^ e < 2 ^ spec.mantissaBits := (div_lt_iff₀ (two_zpow_pos e)).mpr h.lt
  have hhalf := (abs_le.mp hnear.le_half).1
  by_contra hlarge
  have hlarge' : (2 ^ spec.mantissaBits + 1 : Rat) ≤ n := by exact_mod_cast Nat.not_le.mp hlarge
  linarith

/-- The exponent that a mantissa is shifted to is that of the unit of every number with this integer
part, provided there are digits enough to fill a mantissa. -/
theorem isUnit_targetExponent (spec : Format) {mantissa : Nat} {exponent : Int} {y : Rat}
    (hle : mantissa ≤ y) (hlt : y < mantissa + 1)
    (hdigits : exponent ≤ spec.minExponent ∨ spec.mantissaBitsWithoutImplicit ≤ mantissa.log2) :
    IsUnit spec (y * 2 ^ exponent) (spec.targetExponent (totalExponent mantissa exponent)) := by
  generalize htarget : spec.targetExponent (totalExponent mantissa exponent) = target
  rw [Format.targetExponent, totalExponent] at htarget
  have hbits : spec.mantissaBits = 1 + spec.mantissaBitsWithoutImplicit := rfl
  refine ⟨by omega, ?_, ?_⟩
  · have hlog : mantissa + 1 ≤ 2 ^ (mantissa.log2 + 1) := Nat.lt_log2_self
    calc y * 2 ^ exponent < (2 : Rat) ^ (mantissa.log2 + 1) * 2 ^ exponent :=
          mul_lt_mul_of_pos_right (hlt.trans_le (by exact_mod_cast hlog)) (two_zpow_pos _)
      _ = 2 ^ ((mantissa.log2 + 1 : Nat) + exponent) := by
          rw [zpow_add₀ two_ne_zero, zpow_natCast]
      _ ≤ 2 ^ (spec.mantissaBits + target) := zpow_le_zpow_right₀ one_le_two (by omega)
      _ = 2 ^ spec.mantissaBits * 2 ^ target := by rw [zpow_add₀ two_ne_zero, zpow_natCast]
  · by_cases hleast : target = spec.minExponent
    · exact .inl hleast
    · have hne : mantissa ≠ 0 := by
        rintro rfl
        have hsome := spec.hm
        rw [Nat.log2_zero] at hdigits htarget
        omega
      have hlog : 2 ^ mantissa.log2 ≤ mantissa := Nat.log2_self_le hne
      refine .inr ?_
      calc (2 : Rat) ^ spec.mantissaBitsWithoutImplicit * 2 ^ target
          = 2 ^ (spec.mantissaBitsWithoutImplicit + target) := by
            rw [zpow_add₀ two_ne_zero, zpow_natCast]
        _ ≤ 2 ^ ((mantissa.log2 : Nat) + exponent) :=
            zpow_le_zpow_right₀ one_le_two (by omega)
        _ = 2 ^ mantissa.log2 * 2 ^ exponent := by rw [zpow_add₀ two_ne_zero, zpow_natCast]
        _ ≤ y * 2 ^ exponent :=
            mul_le_mul_of_nonneg_right (le_trans (by exact_mod_cast hlog) hle)
              (two_zpow_pos _).le

/-- Once a mantissa has been rounded, it is shifted again only if it has a digit too many. -/
private theorem shiftToTarget_rounded (spec : Format) {n : Nat} {e : Int}
    (hle : n ≤ 2 ^ spec.mantissaBits) (hleast : spec.minExponent ≤ e) :
    let shift := (spec.targetExponent (totalExponent n e) - e).toNat
    (n < 2 ^ spec.mantissaBits ∧ shift = 0) ∨ (n = 2 ^ spec.mantissaBits ∧ shift = 1) := by
  intro shift
  have hshift : shift = (max ((n.log2 : Int) + 1 + e - spec.mantissaBits) spec.minExponent
      - e).toNat := rfl
  rw [hshift]
  obtain hfits | rfl := hle.lt_or_eq
  · have hlog : n.log2 < spec.mantissaBits := by
      rcases Nat.eq_zero_or_pos n with rfl | hpos
      · exact Nat.add_pos_left Nat.one_pos _
      · exact (Nat.log2_lt hpos.ne').mpr hfits
    exact .inl ⟨hfits, by omega⟩
  · refine .inr ⟨rfl, ?_⟩
    rw [Nat.log2_two_pow]
    omega

private theorem mantissa_ofMantissaAndAccuracy (mantissa : Nat) (accuracy : Accuracy) :
    (ExtendedMantissa.ofMantissaAndAccuracy mantissa accuracy).mantissa = mantissa := by
  obtain _ | order := accuracy
  · rfl
  · cases order <;> rfl

private theorem two_pow_mantissaBits_div_two (spec : Format) :
    2 ^ spec.mantissaBits / 2 = 2 ^ spec.mantissaBitsWithoutImplicit := by
  rw [Format.mantissaBits, Nat.pow_add, pow_one, Nat.mul_div_cancel_left _ two_pos]

/-- **Rounding** takes the nearest number of units, provided there are digits enough to fill a
mantissa. If that gives a digit too many, the unit is doubled. -/
theorem exists_roundWithAccuracy_eq (spec : Format) (sign : Sign) {mantissa : Nat} {exponent : Int}
    {accuracy : Accuracy} {y : Rat}
    (h : Represents (.ofMantissaAndAccuracy mantissa accuracy) y)
    (hdigits : exponent ≤ spec.minExponent ∨ spec.mantissaBitsWithoutImplicit ≤ mantissa.log2) :
    ∃ n e, IsUnit spec (y * 2 ^ exponent) e ∧ IsNearestInt (y * 2 ^ exponent / 2 ^ e) n ∧
      ((n < 2 ^ spec.mantissaBits ∧
          roundWithAccuracy spec sign mantissa exponent accuracy = ofParts sign n e) ∨
        (n = 2 ^ spec.mantissaBits ∧ roundWithAccuracy spec sign mantissa exponent accuracy
          = ofParts sign (2 ^ spec.mantissaBitsWithoutImplicit) (e + 1))) := by
  have hmantissa := mantissa_ofMantissaAndAccuracy mantissa accuracy
  have hunit := isUnit_targetExponent spec (hmantissa ▸ h.mantissa_le)
    (hmantissa ▸ h.lt_mantissa_add_one) hdigits
  have hsmaller : exponent ≤ spec.targetExponent (totalExponent mantissa exponent) := by
    have hbits : spec.mantissaBits = 1 + spec.mantissaBitsWithoutImplicit := rfl
    rw [Format.targetExponent, totalExponent]
    omega
  have htarget := shiftToTarget_eq spec mantissa exponent accuracy
  generalize spec.targetExponent (totalExponent mantissa exponent) = target at *
  -- in units of the target, the number is shifted to the right
  have hshift : y * 2 ^ exponent / 2 ^ target = y / 2 ^ (target - exponent).toNat := by
    rw [← zpow_natCast, Int.toNat_of_nonneg (by omega), zpow_sub₀ two_ne_zero, div_div_eq_mul_div]
  have hexponent : exponent + (target - exponent).toNat = target := by omega
  have hnear := (h.shiftRight (target - exponent).toNat).isNearestInt
  rw [← hshift] at hnear
  refine ⟨_, target, hunit, hnear, ?_⟩
  have hle := hunit.nearest_le hnear
  unfold roundWithAccuracy
  dsimp only
  rw [htarget, hexponent]
  dsimp only
  generalize (ExtendedMantissa.roundedMantissa _) = rounded at hle
  rw [shiftToTarget_eq spec rounded]
  obtain ⟨hfits, hstay⟩ | ⟨rfl, hone⟩ := shiftToTarget_rounded spec hle hunit.least_le
  · rw [hstay]
    exact .inl ⟨hfits, congrArg (ofParts sign rounded) (add_zero target)⟩
  · rw [hone]
    refine .inr ⟨rfl, ?_⟩
    change ofParts sign (2 ^ spec.mantissaBits / 2) (target + 1) = _
    rw [two_pow_mantissaBits_div_two]

/-- **Rounding to a double** gives the canonical number nearest to the one that the mantissa stands
for. -/
theorem exists_roundWithAccuracy (sign : Sign) {mantissa : Nat} {exponent : Int}
    {accuracy : Accuracy} {y : Rat}
    (h : Represents (.ofMantissaAndAccuracy mantissa accuracy) y)
    (hdigits : exponent ≤ -1074 ∨ 52 ≤ mantissa.log2) :
    ∃ m e, roundWithAccuracy .binary64 sign mantissa exponent accuracy = ofParts sign m e ∧
      IsRounding (y * 2 ^ exponent) m e := by
  obtain ⟨n, e, ⟨hleast, hlt, hfull⟩, hnear, hrounded⟩ :=
    exists_roundWithAccuracy_eq .binary64 sign h hdigits
  obtain ⟨hfits, hnearest⟩ | ⟨rfl, hnearest⟩ := hnear.exists_isRounding hleast hlt hfull
  · exact ⟨n, e, (hrounded.resolve_right fun hmore => hfits.ne hmore.1).2, hnearest⟩
  · exact ⟨2 ^ 52, e + 1, (hrounded.resolve_left fun hless => hless.1.ne rfl).2, hnearest⟩

/-! ### Operations -/

/-- The exact product is rounded. -/
theorem exists_mul (sign sign' : Sign) {m m' : Nat} {e e' : Int} (hm : 0 < m) (hm' : 0 < m')
    (hdigits : e + e' ≤ -1074 ∨ 52 ≤ (m * m').log2) :
    ∃ m'' e'', UnpackedFloat.mul .binary64 (.finite sign m e hm) (.finite sign' m' e' hm')
        = ofParts (sign * sign') m'' e'' ∧
      IsRounding ((m * 2 ^ e) * (m' * 2 ^ e')) m'' e'' := by
  have hproduct : (m : Rat) * 2 ^ e * (m' * 2 ^ e') = (m * m' : Nat) * 2 ^ (e + e') := by
    rw [zpow_add₀ two_ne_zero]
    push_cast
    ring
  rw [hproduct]
  exact exists_roundWithAccuracy (sign * sign') (represents_exact (m * m')) hdigits

/-- A dividend with 53 digits more than the divisor leaves a quotient that fills a mantissa. -/
private theorem le_log2_shiftLeft_div {m m' k : Nat} (hm : 0 < m) (hm' : 0 < m')
    (hk : m'.log2 + 53 ≤ m.log2 + k) : 52 ≤ ((m <<< k) / m').log2 := by
  have hlarge : 2 ^ 52 * m' ≤ m <<< k := by
    calc 2 ^ 52 * m' ≤ 2 ^ 52 * 2 ^ (m'.log2 + 1) := Nat.mul_le_mul_left _ Nat.lt_log2_self.le
      _ = 2 ^ (m'.log2 + 53) := by rw [← Nat.pow_add]; congr 1; omega
      _ ≤ 2 ^ (m.log2 + k) := Nat.pow_le_pow_right two_pos hk
      _ = 2 ^ m.log2 * 2 ^ k := Nat.pow_add ..
      _ ≤ m * 2 ^ k := Nat.mul_le_mul_right _ (Nat.log2_self_le hm.ne')
      _ = m <<< k := (Nat.shiftLeft_eq m k).symm
  have hle : 2 ^ 52 ≤ (m <<< k) / m' := (Nat.le_div_iff_mul_le hm').mpr hlarge
  exact (Nat.le_log2 (by omega)).mpr hle

/-- The exact quotient is rounded. -/
theorem exists_div (sign sign' : Sign) {m m' : Nat} (e e' : Int) (hm : 0 < m) (hm' : 0 < m') :
    ∃ m'' e'', UnpackedFloat.div .binary64 (.finite sign m e hm) (.finite sign' m' e' hm')
        = ofParts (sign / sign') m'' e'' ∧
      IsRounding ((m * 2 ^ e) / (m' * 2 ^ e')) m'' e'' := by
  generalize htarget : min (e - e') (max (m.log2 + 1 + e - (m'.log2 + 1 + e') - 53) (-1074)) = target
  have hdiv : UnpackedFloat.div .binary64 (.finite sign m e hm) (.finite sign' m' e' hm')
      = roundWithAccuracy .binary64 (sign / sign') ((m <<< (e - e' - target).toNat) / m') target
          (accuracyOfFraction ((m <<< (e - e' - target).toNat) % m') m') := by
    rw [← htarget]
    rfl
  have hquotient : (m : Rat) * 2 ^ e / (m' * 2 ^ e')
      = (m <<< (e - e' - target).toNat : Nat) / m' * 2 ^ target := by
    have hsplit : (2 : Rat) ^ (e - e') = 2 ^ (e - e' - target).toNat * 2 ^ target := by
      rw [← zpow_natCast, ← zpow_add₀ two_ne_zero]
      congr 1
      omega
    rw [Nat.shiftLeft_eq]
    push_cast
    rw [mul_div_mul_comm, ← zpow_sub₀ two_ne_zero, hsplit]
    ring
  rw [hdiv, hquotient]
  refine exists_roundWithAccuracy (sign / sign') (represents_div _ hm') ?_
  by_cases hsmall : target ≤ -1074
  · exact .inl hsmall
  · exact .inr (le_log2_shiftLeft_div hm hm' (by omega))

/-- A number with any number of digits is given more of them, as many as rounding takes away. -/
theorem exists_round_eq (spec : Format) (sign : Sign) {m : Nat} (hm : 0 < m) (e : Int) :
    ∃ m' e', UnpackedFloat.round spec sign m e = roundWithAccuracy spec sign m' e' .exact ∧
      (m : Rat) * 2 ^ e = m' * 2 ^ e' ∧
      (e' ≤ spec.minExponent ∨ spec.mantissaBitsWithoutImplicit ≤ m'.log2) := by
  generalize htarget : spec.targetExponent (totalExponent m e) = target
  refine ⟨m <<< (e - target).toNat, e - (e - target).toNat, ?_,
    mul_two_zpow_eq_shiftLeft m _ e, ?_⟩
  · rw [← htarget]
    rfl
  · rw [Format.targetExponent, totalExponent] at htarget
    by_cases hsmall : e - (e - target).toNat ≤ spec.minExponent
    · exact .inl hsmall
    · refine .inr ?_
      have hbits : spec.mantissaBits = 1 + spec.mantissaBitsWithoutImplicit := rfl
      have hlog : m.log2 + (e - target).toNat ≤ (m <<< (e - target).toNat).log2 := by
        rw [Nat.shiftLeft_eq, Nat.le_log2 (Nat.mul_pos hm (Nat.two_pow_pos _)).ne', Nat.pow_add]
        exact Nat.mul_le_mul_right _ (Nat.log2_self_le hm.ne')
      omega

/-- A number with any number of digits is rounded to a double. -/
theorem exists_round (sign : Sign) {m : Nat} (hm : 0 < m) (e : Int) :
    ∃ m' e', UnpackedFloat.round .binary64 sign m e = ofParts sign m' e' ∧
      IsRounding (m * 2 ^ e) m' e' := by
  obtain ⟨M, E, hround, hvalue, hdigits⟩ := exists_round_eq .binary64 sign hm e
  rw [hround, hvalue]
  exact exists_roundWithAccuracy sign (represents_exact _) hdigits

/-- A natural number of any size, times a power of two, is rounded. -/
theorem exists_normalize_natCast (n : Nat) (e : Int) :
    ∃ m' e', UnpackedFloat.normalize .binary64 n e .positive = ofParts .positive m' e' ∧
      IsRounding (n * 2 ^ e) m' e' := by
  obtain rfl | hpos := Nat.eq_zero_or_pos n
  · refine ⟨0, -1074, rfl, ?_⟩
    rw [Nat.cast_zero, zero_mul]
    exact isRounding_zero
  · have hcompare : compare (n : Int) 0 = .gt := Int.compare_eq_gt.mpr (by exact_mod_cast hpos)
    rw [UnpackedFloat.normalize, hcompare]
    exact exists_round .positive hpos e

/-- So is its negative. -/
theorem exists_normalize_neg_natCast {n : Nat} (hn : 0 < n) (e : Int) :
    ∃ m' e', UnpackedFloat.normalize .binary64 (-n) e .positive = ofParts .negative m' e' ∧
      IsRounding (n * 2 ^ e) m' e' := by
  have hcompare : compare (-n : Int) 0 = .lt := Int.compare_eq_lt.mpr (by omega)
  rw [UnpackedFloat.normalize, hcompare]
  dsimp only
  rw [neg_neg, Int.toNat_natCast]
  exact exists_round .negative hn e

end SceneCanvas.Scalar
