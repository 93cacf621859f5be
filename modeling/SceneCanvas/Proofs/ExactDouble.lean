import SceneCanvas.Proofs.NearestDouble

/-!
# Exact operations on doubles

Rounding leaves alone what a double can stand for. So where the exact result of an operation has no
more than 53 digits, and is neither huge nor tiny (`Scalar.Representable`), the operation on doubles
is exact: the value of a sum is the sum of the values, and likewise for differences, products and
quotients (`Scalar.valueOf?_add`, `Scalar.valueOf?_mul` and so on). Where it is not exact, it still
does not exceed a natural number that the exact result does not exceed (`Scalar.Rounded.exists_le`).
Doubles are in the order of their values (`Scalar.lt_iff`).

The order sees nothing but values, and so not the sign of a zero, nor how a value was come by. What
is neither below a finite double nor above one is finite itself, if it is a number at all
(`Scalar.exists_valueOf?_of_not_lt`).
-/

namespace SceneCanvas.Scalar

open Float.Model
open Float.Model.UnpackedFloat

/-! ### Numbers with few digits -/

/-- A number of at most 53 digits whose last digit is in a moderate place. -/
def Representable (q : Rat) : Prop :=
  ∃ n e : Int, |n| < 2 ^ 53 ∧ -1074 ≤ e ∧ e ≤ 970 ∧ q = n * 2 ^ e

theorem representable_zero : Representable 0 := ⟨0, 0, by norm_num⟩

theorem representable_natCast {n : Nat} (h : n < 2 ^ 53) : Representable n :=
  ⟨n, 0, by rw [Nat.abs_cast]; exact_mod_cast h, by norm_num, by norm_num, by norm_num⟩

theorem representable_one : Representable 1 := by
  exact_mod_cast representable_natCast (n := 1) (by norm_num)

/-- Half a natural number. -/
theorem representable_natCast_div_two {n : Nat} (h : n < 2 ^ 53) : Representable (n / 2) :=
  ⟨n, -1, by rw [Nat.abs_cast]; exact_mod_cast h, by norm_num, by norm_num, by
    rw [zpow_neg_one, Int.cast_natCast, div_eq_mul_inv]⟩

theorem Representable.neg {q : Rat} (h : Representable q) : Representable (-q) := by
  obtain ⟨n, e, hn, he, he', rfl⟩ := h
  exact ⟨-n, e, by rwa [abs_neg], he, he', by push_cast; ring⟩

/-- The size of such a number is that of a canonical number. -/
theorem Representable.exists_abs_eq {q : Rat} (h : Representable q) :
    ∃ (k : Nat) (e : Int), k < 2 ^ 53 ∧ -1074 ≤ e ∧ e ≤ 970 ∧ |q| = k * 2 ^ e := by
  obtain ⟨n, e, hn, he, he', rfl⟩ := h
  refine ⟨n.natAbs, e, by rw [Int.abs_eq_natAbs] at hn; omega, he, he', ?_⟩
  rw [abs_mul, abs_of_pos (two_zpow_pos e), Nat.cast_natAbs, Int.cast_abs]

/-- Such a number is not too large. -/
theorem Representable.abs_lt_overflow {q : Rat} (h : Representable q) : |q| < overflow := by
  obtain ⟨k, e, hk, he, he', heq⟩ := h.exists_abs_eq
  rw [heq]
  calc (k : Rat) * 2 ^ e < 2 ^ 53 * 2 ^ e :=
        mul_lt_mul_of_pos_right (by exact_mod_cast hk) (two_zpow_pos e)
    _ ≤ 2 ^ 53 * 2 ^ (970 : Int) :=
        mul_le_mul_of_nonneg_left (zpow_le_zpow_right₀ one_le_two he') (by norm_num)
    _ = 2 ^ 1023 := (congrArg (2 ^ 53 * ·) (zpow_natCast (2 : Rat) 970)).trans (pow_add 2 53 970).symm
    _ ≤ overflow := two_pow_le_overflow

/-- **Such a number is rounded to itself.** -/
theorem RoundsTo.valueOf? {sign : Sign} {v : Rat} {x : Float} (h : RoundsTo sign v x)
    (hv : 0 ≤ v) (hrepresentable : Representable (unit sign * v)) :
    Scalar.valueOf? x = some (unit sign * v) := by
  have hsize : |unit sign * v| = v := by rw [abs_unit_mul, abs_of_nonneg hv]
  obtain ⟨k, f, hk, hf, -, hkf⟩ := hrepresentable.exists_abs_eq
  have hsmall := hrepresentable.abs_lt_overflow
  rw [hsize] at hkf hsmall
  obtain ⟨m, e, hrounding, hparts⟩ := h.hasParts hsmall
  rw [hparts.valueOf?, hrounding.eq_of_canonical hk hf hkf]

/-! ### Operations -/

/-- The signs of products, quotients and opposites, by going through all of them. -/
private theorem forall_sign : ∀ sign sign' : Sign,
    unit (sign * sign') = unit sign * unit sign' ∧ unit (sign / sign') = unit sign / unit sign' ∧
      unit (-sign) = -unit sign
  | .positive, .positive | .positive, .negative | .negative, .positive | .negative, .negative => by
    decide +kernel

theorem unit_mul (sign sign' : Sign) : unit (sign * sign') = unit sign * unit sign' :=
  (forall_sign sign sign').1

theorem unit_div (sign sign' : Sign) : unit (sign / sign') = unit sign / unit sign' :=
  (forall_sign sign sign').2.1

theorem unit_neg (sign : Sign) : unit (-sign) = -unit sign :=
  (forall_sign sign sign).2.2

/-- A difference is a sum, before anything is rounded. -/
private theorem unpacked_sub_eq (u v : UnpackedFloat) :
    UnpackedFloat.sub .binary64 u v = UnpackedFloat.add .binary64 u v.neg := by
  cases u <;> cases v
  case finite.finite sign m e hm sign' m' e' hm' =>
    have hneg (n : Int) : (-sign').apply n = -sign'.apply n := by
      cases sign' with
      | positive => rfl
      | negative => exact (neg_neg n).symm
    rw [UnpackedFloat.neg, UnpackedFloat.sub, UnpackedFloat.add]
    dsimp only
    rw [hneg, ← sub_eq_add_neg]
  all_goals rfl

/-- A natural number. -/
theorem valueOf?_natCast {n : Nat} (h : n < 2 ^ 53) :
    valueOf? (OfScientific.ofScientific n false 0) = some n := by
  have hrounds := roundsTo_ofScientific n false 0
  rw [if_neg (by decide), pow_zero, mul_one] at hrounds
  have hvalue := hrounds.valueOf? n.cast_nonneg
    (by rw [unit_positive, one_mul]; exact representable_natCast h)
  rwa [unit_positive, one_mul] at hvalue

/-- A natural number that is written with a digit after the point. -/
theorem valueOf?_point_zero {n : Nat} (h : n < 2 ^ 53) :
    valueOf? (OfScientific.ofScientific (n * 10) true 1) = some n := by
  have hrounds := roundsTo_ofScientific (n * 10) true 1
  have hquotient : ((n * 10 : Nat) : Rat) / 10 ^ 1 = n := by
    push_cast
    field_simp
  rw [if_pos rfl, hquotient] at hrounds
  have hvalue := hrounds.valueOf? n.cast_nonneg
    (by rw [unit_positive, one_mul]; exact representable_natCast h)
  rwa [unit_positive, one_mul] at hvalue

theorem valueOf?_zero : valueOf? 0.0 = some 0 := valueOf?_point_zero (n := 0) (by norm_num)

theorem valueOf?_one : valueOf? 1.0 = some 1 := by
  exact_mod_cast valueOf?_point_zero (n := 1) (by norm_num)

theorem valueOf?_two : valueOf? 2.0 = some 2 := by
  exact_mod_cast valueOf?_point_zero (n := 2) (by norm_num)

/-- A double to which a number is rounded. -/
def Rounded (q : Rat) (x : Float) : Prop :=
  ∃ sign v, 0 ≤ v ∧ unit sign * v = q ∧ RoundsTo sign v x

namespace Rounded

variable {q : Rat} {x : Float} (h : Rounded q x)

include h

theorem valueOf? (hrepresentable : Representable q) : Scalar.valueOf? x = some q := by
  obtain ⟨sign, v, hv, rfl, hrounds⟩ := h
  exact hrounds.valueOf? hv hrepresentable

/-- **What is at most a natural number** stays so when it is rounded. -/
theorem exists_le (hq : 0 ≤ q) {n : Nat} (hn : n < 2 ^ 53) (hle : q ≤ n) :
    ∃ a, Scalar.valueOf? x = some a ∧ 0 ≤ a ∧ a ≤ n := by
  obtain ⟨sign, v, hv, rfl, hrounds⟩ := h
  have hsize : v < overflow := by
    have hsame : unit sign * v = v := by
      rw [← abs_of_nonneg hq, abs_unit_mul, abs_of_nonneg hv]
    have hlarge := (representable_natCast hn).abs_lt_overflow
    rw [Nat.abs_cast] at hlarge
    linarith
  -- neither zero nor the natural number is nearer
  have hnearest := hrounds.isNearest hv hsize
  obtain ⟨a, ha⟩ := Option.isSome_iff_exists.mp hnearest.isSome
  have hzero := hnearest.abs_sub_le ha valueOf?_zero
  have hbound := hnearest.abs_sub_le ha (valueOf?_natCast hn)
  rw [sub_zero, abs_of_nonneg hq] at hzero
  rw [abs_of_nonpos (sub_nonpos.mpr hle)] at hbound
  exact ⟨a, ha, by linarith [le_abs_self (unit sign * v - a)],
    by linarith [neg_abs_le (unit sign * v - a)]⟩

end Rounded

section

variable {x y : Float} {a b : Rat} (hx : valueOf? x = some a) (hy : valueOf? y = some b)

include hx

theorem valueOf?_neg : valueOf? (-x) = some (-a) := by
  obtain ⟨sign, m, e, hparts, rfl⟩ := exists_hasParts hx
  rw [hparts.neg.valueOf?, unit_neg, neg_mul]

/-- The sign is dropped. -/
theorem valueOf?_abs : valueOf? x.abs = some |a| := by
  obtain ⟨sign, m, e, hparts, rfl⟩ := exists_hasParts hx
  have habs : HasParts x.abs .positive m e := by
    refine ⟨hparts.toIsCanonical, hparts.exponent_le, ?_⟩
    have hunpack : x.toModel.unpack.abs = ofParts .positive m e := by
      rw [hparts.unpack_eq, ofParts, ofParts]
      split <;> rfl
    change unpack .binary64 (UnpackedFloat.pack .binary64 x.toModel.unpack.abs) = _
    rw [hunpack, unpack_pack_ofParts _ hparts.toIsCanonical hparts.exponent_le]
  rw [habs.valueOf?, abs_unit_mul, unit_positive, one_mul,
    abs_of_nonneg (mul_two_zpow_nonneg m e)]

include hy

theorem rounded_add : Rounded (a + b) (x + y) := by
  obtain ⟨sign, m, e, hparts, rfl⟩ := exists_hasParts hx
  obtain ⟨sign', m', e', hparts', rfl⟩ := exists_hasParts hy
  exact hparts.add hparts'

theorem rounded_mul : Rounded (a * b) (x * y) := by
  obtain ⟨sign, m, e, hparts, rfl⟩ := exists_hasParts hx
  obtain ⟨sign', m', e', hparts', rfl⟩ := exists_hasParts hy
  refine ⟨_, _, by positivity, ?_, hparts.mul hparts'⟩
  rw [unit_mul]
  ring

theorem rounded_div (hb : b ≠ 0) : Rounded (a / b) (x / y) := by
  obtain ⟨sign, m, e, hparts, rfl⟩ := exists_hasParts hx
  obtain ⟨sign', m', e', hparts', rfl⟩ := exists_hasParts hy
  have hm' : m' ≠ 0 := by
    rintro rfl
    rw [Nat.cast_zero, zero_mul, mul_zero] at hb
    exact hb rfl
  refine ⟨_, _, by positivity, ?_, hparts.div hparts' hm'⟩
  rw [unit_div, ← mul_div_mul_comm]

theorem valueOf?_add (h : Representable (a + b)) : valueOf? (x + y) = some (a + b) :=
  (rounded_add hx hy).valueOf? h

theorem valueOf?_sub (h : Representable (a - b)) : valueOf? (x - y) = some (a - b) := by
  have hsub : x - y = x + -y := by
    obtain ⟨sign', m', e', hparts', -⟩ := exists_hasParts hy
    have hneg : (-y).toModel.unpack = y.toModel.unpack.neg := by
      rw [hparts'.neg.unpack_eq, hparts'.unpack_eq, neg_ofParts]
    change Float.ofModel (.pack (.sub .binary64 x.toModel.unpack y.toModel.unpack))
      = .ofModel (.pack (.add .binary64 x.toModel.unpack (-y).toModel.unpack))
    rw [hneg, unpacked_sub_eq]
  rw [hsub, sub_eq_add_neg]
  rw [sub_eq_add_neg] at h
  exact valueOf?_add hx (valueOf?_neg hy) h

theorem valueOf?_mul (h : Representable (a * b)) : valueOf? (x * y) = some (a * b) :=
  (rounded_mul hx hy).valueOf? h

theorem valueOf?_div (hb : b ≠ 0) (h : Representable (a / b)) :
    valueOf? (x / y) = some (a / b) :=
  (rounded_div hx hy hb).valueOf? h

end

/-! ### Order -/

/-- Signs turn the order around. -/
private theorem swap_compare (a b : Rat) : (compare a b).swap = compare (-1 * a) (-1 * b) := by
  rw [neg_one_mul, neg_one_mul]
  obtain hlt | rfl | hgt := lt_trichotomy a b
  · rw [compare_lt_iff_lt.mpr hlt, compare_gt_iff_gt.mpr (neg_lt_neg hlt)]
    rfl
  · rw [compare_eq_iff_eq.mpr rfl, compare_eq_iff_eq.mpr rfl]
    rfl
  · rw [compare_gt_iff_gt.mpr hgt, compare_lt_iff_lt.mpr (neg_lt_neg hgt)]
    rfl

/-- A zero, of either sign, is compared with a number by the sign of the number. -/
private theorem compare_zero_ofParts (sign sign' : Sign) (m : Nat) (e : Int) :
    UnpackedFloat.compare (.zero sign) (ofParts sign' m e)
      = some (compare 0 (unit sign' * (m * 2 ^ e))) := by
  rw [ofParts]
  split
  next hm => rw [hm, Nat.cast_zero, zero_mul, mul_zero]; rfl
  next hm =>
    have hpos := mul_two_zpow_pos hm e
    cases sign' with
    | positive => rw [unit_positive, one_mul, compare_lt_iff_lt.mpr hpos]; rfl
    | negative =>
      rw [unit_negative, neg_one_mul, compare_gt_iff_gt.mpr (neg_neg_of_pos hpos)]
      rfl

private theorem compare_ofParts_zero (sign sign' : Sign) (m : Nat) (e : Int) :
    UnpackedFloat.compare (ofParts sign m e) (.zero sign')
      = some (compare (unit sign * (m * 2 ^ e)) 0) := by
  rw [ofParts]
  split
  next hm => rw [hm, Nat.cast_zero, zero_mul, mul_zero]; rfl
  next hm =>
    have hpos := mul_two_zpow_pos hm e
    cases sign with
    | positive => rw [unit_positive, one_mul, compare_gt_iff_gt.mpr hpos]; rfl
    | negative =>
      rw [unit_negative, neg_one_mul, compare_lt_iff_lt.mpr (neg_neg_of_pos hpos)]
      rfl

/-- Doubles are compared by value. -/
theorem compare_unpack {x y : Float} {a b : Rat} (hx : valueOf? x = some a)
    (hy : valueOf? y = some b) :
    UnpackedFloat.compare x.toModel.unpack y.toModel.unpack = some (compare a b) := by
  obtain ⟨sign, m, e, hparts, rfl⟩ := exists_hasParts hx
  obtain ⟨sign', m', e', hparts', rfl⟩ := exists_hasParts hy
  rw [hparts.unpack_eq, hparts'.unpack_eq]
  by_cases hm : m = 0
  · rw [hm, Nat.cast_zero, zero_mul, mul_zero, ← compare_zero_ofParts sign, ofParts, dif_pos rfl]
  by_cases hm' : m' = 0
  · rw [hm', Nat.cast_zero, zero_mul, mul_zero, ← compare_ofParts_zero sign sign',
      ofParts.eq_def sign', dif_pos rfl]
  -- neither is zero: by the signs where they differ, and else by the sizes
  have hpos := mul_two_zpow_pos hm e
  have hpos' := mul_two_zpow_pos hm' e'
  have hcompare := hparts.isPart.compare_eq hparts'.isPart
  rw [ofParts, ofParts, dif_neg hm, dif_neg hm']
  cases sign <;> cases sign'
  case negative.negative =>
    rw [unit_negative, ← swap_compare, ← hcompare]
    rfl
  case negative.positive =>
    rw [unit_negative, unit_positive, compare_lt_iff_lt.mpr (by linarith)]
    rfl
  case positive.negative =>
    rw [unit_negative, unit_positive, compare_gt_iff_gt.mpr (by linarith)]
    rfl
  case positive.positive =>
    rw [unit_positive, one_mul, one_mul, ← hcompare]
    rfl

private theorem lt_iff_compare_eq {x y : Float} :
    x < y ↔ UnpackedFloat.compare x.toModel.unpack y.toModel.unpack = some .lt := by
  change decide ((UnpackedFloat.compare x.toModel.unpack y.toModel.unpack == some .lt) = true)
    = true ↔ _
  rw [decide_eq_true_iff, beq_iff_eq]

/-- **Doubles are in the order of their values.** -/
theorem lt_iff {x y : Float} {a b : Rat} (hx : valueOf? x = some a) (hy : valueOf? y = some b) :
    x < y ↔ a < b := by
  rw [lt_iff_compare_eq, compare_unpack hx hy, Option.some.injEq, compare_lt_iff_lt]

/-- What lies between two doubles that stand for numbers stands for one, too. -/
theorem exists_valueOf?_of_not_lt {x y v : Float} {a b : Rat} (hx : valueOf? x = some a)
    (hy : valueOf? y = some b) (hnumber : v.isNaN = false) (hlow : ¬ v < x) (hhigh : ¬ y < v) :
    ∃ c, valueOf? v = some c ∧ a ≤ c ∧ c ≤ b := by
  have hfinite : ∃ c, valueOf? v = some c := by
    obtain ⟨sign, m, e, hparts, -⟩ := exists_hasParts hx
    obtain ⟨sign', m', e', hparts', -⟩ := exists_hasParts hy
    cases hv : v.toModel.unpack with
    | notANumber =>
      change v.toModel.unpack.isNaN = false at hnumber
      rw [hv] at hnumber
      cases hnumber
    | infinity sign'' =>
      cases sign'' with
      | negative =>
        refine absurd (lt_iff_compare_eq.mpr ?_) hlow
        rw [hv, hparts.unpack_eq, ofParts]
        split <;> rfl
      | positive =>
        refine absurd (lt_iff_compare_eq.mpr ?_) hhigh
        rw [hv, hparts'.unpack_eq, ofParts]
        split <;> rfl
    | zero sign'' => exact ⟨_, (hasParts_of_unpack_zero hv).valueOf?⟩
    | finite sign'' m'' e'' hpos => exact ⟨_, (hasParts_of_unpack hv).valueOf?⟩
  obtain ⟨c, hc⟩ := hfinite
  exact ⟨c, hc, not_lt.mp (mt (lt_iff hc hx).mpr hlow), not_lt.mp (mt (lt_iff hy hc).mpr hhigh)⟩

end SceneCanvas.Scalar
