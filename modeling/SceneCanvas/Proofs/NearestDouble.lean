import SceneCanvas.Proofs.RoundingOrder
import SceneCanvas.Text.Numeral

/-!
# The nearest double

A rounded number is stored as a double unless its exponent is too large, and then the double is
infinite. `Scalar.IsNearest` says without reference to rounding that a double is nearest to a number,
among all doubles, and of two the one that ends in an even digit; `Scalar.RoundsTo.isNearest` says
that rounding gives this double for every number below `Scalar.overflow`, and
`Scalar.RoundsTo.isFinite_eq_false` that it gives no finite one from there on.

Sums, products, quotients and decimals are rounded (`Scalar.HasParts.add`, `Scalar.HasParts.mul`,
`Scalar.HasParts.div`, `Scalar.roundsTo_ofScientific`). Decimals are computed in two ways, by one
operation on exact doubles where numerator and denominator are small, and else with integers of any
size, where very large exponents are cut off.
-/

namespace SceneCanvas.Scalar

open Float.Model
open Float.Model.UnpackedFloat

/-! ### Storing -/

/-- The stored parts of a canonical number that is not too large. -/
theorem exists_pack_ofParts (sign : Sign) {mantissa : Nat} {exponent : Int}
    (h : IsCanonical mantissa exponent) (hmax : exponent ≤ 971) : ∃ biased : BitVec 11,
      UnpackedFloat.pack .binary64 (ofParts sign mantissa exponent)
        = packComponents .binary64 sign biased (BitVec.ofNat 52 mantissa) ∧
      (2 ^ 52 ≤ mantissa → biased.toNat = (exponent + 1075).toNat) ∧
      (mantissa < 2 ^ 52 → biased = 0#11) := by
  unfold ofParts
  split
  next hzero =>
    subst hzero
    exact ⟨0#11, rfl, fun hfull => absurd hfull (by decide), fun _ => rfl⟩
  next hne =>
    have hleast := h.least_le
    have hsmall : ¬ 2 ^ Format.binary64.exponentBits ≤
        (exponent + Format.binary64.exponentBias
          + Format.binary64.mantissaBitsWithoutImplicit).toNat + 1 := by
      change ¬ 2 ^ 11 ≤ (exponent + (1023 : Nat) + (52 : Nat)).toNat + 1
      omega
    have hmantissaBits : Format.binary64.mantissaBits = 53 := rfl
    unfold UnpackedFloat.pack
    dsimp only
    rw [if_neg hsmall, hmantissaBits]
    by_cases hfull : 2 ^ 52 ≤ mantissa
    · have hlog : mantissa.log2 = 52 := (Nat.log2_eq_iff hne).mpr ⟨hfull, h.lt⟩
      rw [if_pos (by rw [hlog])]
      refine ⟨_, rfl, fun _ => ?_, fun hlow => absurd hfull (Nat.not_le.mpr hlow)⟩
      change (BitVec.ofNat 11 (exponent + (1023 : Nat) + (52 : Nat)).toNat).toNat = _
      rw [BitVec.toNat_ofNat, Nat.mod_eq_of_lt (by omega)]
      congr 1
      omega
    · have hlog : mantissa.log2 < 52 := (Nat.log2_lt hne).mpr (Nat.not_le.mp hfull)
      rw [if_neg (by omega)]
      exact ⟨0#11, rfl, fun hfull' => absurd hfull' hfull, fun _ => rfl⟩

/-- A canonical number that is not too large is stored as it is. -/
theorem unpack_pack_ofParts (sign : Sign) {mantissa : Nat} {exponent : Int}
    (h : IsCanonical mantissa exponent) (hmax : exponent ≤ 971) :
    unpack .binary64 (UnpackedFloat.pack .binary64 (ofParts sign mantissa exponent))
      = ofParts sign mantissa exponent := by
  refine unpack_pack .binary64 sign ⟨h.isPart, ?_⟩
  change exponent + (1023 : Nat) + (52 : Nat) + 1 < 2 ^ 11
  omega

/-- A canonical number that is too large is stored as infinite. -/
theorem pack_ofParts_of_large (sign : Sign) {mantissa : Nat} {exponent : Int}
    (h : IsCanonical mantissa exponent) (hmax : 972 ≤ exponent) :
    UnpackedFloat.pack .binary64 (ofParts sign mantissa exponent)
      = packedInfinity .binary64 sign := by
  have hfull := h.full.resolve_left (by omega)
  have hlarge : 2 ^ Format.binary64.exponentBits ≤
      (exponent + Format.binary64.exponentBias
        + Format.binary64.mantissaBitsWithoutImplicit).toNat + 1 := by
    change 2 ^ 11 ≤ (exponent + (1023 : Nat) + (52 : Nat)).toNat + 1
    omega
  rw [ofParts, dif_neg (by omega), UnpackedFloat.pack]
  dsimp only
  rw [if_pos hlarge]

/-- Such a number is stored as the infinite double is. -/
theorem modelPack_ofParts_of_large (sign : Sign) {mantissa : Nat} {exponent : Int}
    (h : IsCanonical mantissa exponent) (hmax : 972 ≤ exponent) :
    Float.Model.pack (ofParts sign mantissa exponent) = Float.Model.pack (.infinity sign) := by
  unfold Float.Model.pack
  rw [Float.Model.mk.injEq, pack_ofParts_of_large sign h hmax]
  rfl

/-- The last digit of a stored double is that of its mantissa, and the first one its sign. -/
theorem toNat_packComponents (sign : Sign) (biased : BitVec 11) (mantissa : BitVec 52) :
    (packComponents .binary64 sign biased mantissa).toNat
      = sign.toBitVec.toNat * 2 ^ 63 + biased.toNat * 2 ^ 52 + mantissa.toNat := by
  have happend {n k : Nat} (a : BitVec n) (b : BitVec k) :
      (a ++ b).toNat = a.toNat * 2 ^ k + b.toNat := by
    rw [BitVec.toNat_append, ← Nat.shiftLeft_add_eq_or_of_lt b.isLt, Nat.shiftLeft_eq]
  unfold packComponents
  change (sign.toBitVec ++ biased ++ mantissa).toNat = _
  rw [happend, happend]
  ring

/-! ### Numbers that are too large, or doubles -/

/-- From here on numbers are too large to be rounded to a double: halfway from the largest double to
the power of two above it. -/
def overflow : Rat := 2 ^ 1024 - 2 ^ 970

/-- The largest double, the number halfway, and the next power of two, in one unit. -/
private theorem exists_overflow_unit : ∃ u : Rat, 0 < u ∧ overflow = (2 ^ 54 - 1) * u ∧
    ((2 ^ 53 - 1 : Nat) : Rat) * 2 ^ (971 : Int) = (2 ^ 54 - 2) * u ∧
    ((2 ^ 52 : Nat) : Rat) * 2 ^ (972 : Int) = 2 ^ 54 * u := by
  have htwo : (2 : Rat) ^ (971 : Int) = 2 * 2 ^ 970 :=
    (zpow_natCast (2 : Rat) 971).trans (pow_succ' 2 970)
  have hfour : (2 : Rat) ^ (972 : Int) = 4 * 2 ^ 970 := by
    have hsquare : (2 : Rat) ^ 2 = 4 := by norm_num
    rw [← hsquare]
    exact (zpow_natCast (2 : Rat) 972).trans (pow_add 2 2 970)
  have hlarge : (2 : Rat) ^ 1024 = 2 ^ 54 * 2 ^ 970 := (pow_add 2 54 970)
  refine ⟨2 ^ 970, pow_pos two_pos 970, ?_, ?_, ?_⟩
  · rw [overflow, hlarge, sub_mul, one_mul]
  · rw [htwo, ← mul_assoc]
    norm_num
  · rw [hfour, ← mul_assoc]
    norm_num

/-- A power of two below the largest double. -/
theorem two_pow_le_overflow : (2 : Rat) ^ 1023 ≤ overflow := by
  have hdouble : (2 : Rat) ^ 1024 = 2 ^ 1023 + 2 ^ 1023 := by rw [pow_succ, mul_two]
  have hle : (2 : Rat) ^ 970 ≤ 2 ^ 1023 := pow_le_pow_right₀ one_le_two (by norm_num)
  rw [overflow, hdouble, le_sub_iff_add_le]
  exact add_le_add_right hle _

/-- The largest double has an odd mantissa. -/
private theorem odd_of_eq_largest {mantissa : Nat} {exponent : Int} (hexponent : exponent ≤ 971)
    (hlt : mantissa < 2 ^ 53)
    (h : (mantissa : Rat) * 2 ^ exponent = (2 ^ 53 - 1 : Nat) * 2 ^ (971 : Int)) :
    Odd mantissa := by
  obtain ⟨n, hn⟩ := Int.le.dest hexponent
  rw [← hn, add_comm, zpow_add₀ two_ne_zero, ← mul_assoc, zpow_natCast] at h
  have hmantissa : mantissa = (2 ^ 53 - 1) * 2 ^ n := by
    exact_mod_cast mul_right_cancel₀ (two_zpow_pos exponent).ne' h
  cases n with
  | zero => rw [hmantissa]; decide
  | succ n =>
    have hpos := Nat.two_pow_pos n
    rw [Nat.pow_succ] at hmantissa
    omega

namespace IsRounding

variable {v : Rat} {mantissa : Nat} {exponent : Int}

/-- A number that is canonical is rounded to itself. -/
theorem eq_of_canonical (h : IsRounding v mantissa exponent) {k : Nat} {f : Int} (hk : k < 2 ^ 53)
    (hf : -1074 ≤ f) (hv : v = k * 2 ^ f) : (mantissa : Rat) * 2 ^ exponent = v := by
  have hnear := h.abs_sub_le k f hk hf
  rw [hv, sub_self, abs_zero] at hnear
  rw [hv]
  exact (sub_eq_zero.mp (abs_nonpos_iff.mp hnear)).symm

/-- A number below half the least double is rounded to zero. -/
theorem eq_zero_of_lt (h : IsRounding v mantissa exponent) (hnonneg : 0 ≤ v)
    (hv : v < 2 ^ (-1075 : Int)) : mantissa = 0 := by
  by_contra hne
  have hsize : (2 : Rat) ^ (-1074 : Int) ≤ mantissa * 2 ^ exponent := by
    calc (2 : Rat) ^ (-1074 : Int) ≤ 2 ^ exponent := zpow_le_zpow_right₀ one_le_two h.least_le
      _ ≤ mantissa * 2 ^ exponent :=
          le_mul_of_one_le_left (two_zpow_pos _).le (by exact_mod_cast Nat.pos_of_ne_zero hne)
  have hhalf : (2 : Rat) ^ (-1074 : Int) = 2 ^ (-1075 : Int) + 2 ^ (-1075 : Int) := by
    rw [← mul_two, ← zpow_add_one₀ two_ne_zero]
    rfl
  have hnear := h.abs_sub_le 0 (-1074) (by norm_num) le_rfl
  rw [Nat.cast_zero, zero_mul, sub_zero, abs_of_nonneg hnonneg] at hnear
  rw [hhalf] at hsize
  obtain ⟨habs, hsign⟩ | ⟨habs, hsign⟩ := abs_cases (v - mantissa * 2 ^ exponent) <;> linarith

/-- **Overflow**: the exponent is that of a double just if the number is not too large. -/
theorem exponent_le_iff (h : IsRounding v mantissa exponent) :
    exponent ≤ 971 ↔ v < overflow := by
  obtain ⟨u, hupos, hoverflow, hlast, hnext⟩ := exists_overflow_unit
  rw [hoverflow]
  constructor
  · intro hexponent
    by_contra hlarge
    have hlow : (mantissa : Rat) * 2 ^ exponent ≤ (2 ^ 54 - 2) * u := by
      rw [← hlast]
      exact mul_le_mul (by exact_mod_cast Nat.le_sub_one_of_lt h.lt)
        (zpow_le_zpow_right₀ one_le_two hexponent) (two_zpow_pos _).le (Nat.cast_nonneg _)
    have hnear := h.abs_sub_le (2 ^ 52) 972 (by norm_num) (by norm_num)
    have heven := h.even (2 ^ 52) 972 (by norm_num) (by norm_num)
    rw [hnext] at hnear heven
    have hup : |v - mantissa * 2 ^ exponent| = v - mantissa * 2 ^ exponent :=
      abs_of_nonneg (by linarith)
    rw [hup] at hnear heven
    -- the number can only be the one halfway, which is rounded up
    obtain ⟨habs, hbeyond⟩ | ⟨habs, hbelow⟩ := abs_cases (v - 2 ^ 54 * u)
    · linarith
    · rw [habs] at hnear heven
      have hlargest : (mantissa : Rat) * 2 ^ exponent = (2 ^ 53 - 1 : Nat) * 2 ^ (971 : Int) := by
        linarith
      have hodd := odd_of_eq_largest hexponent h.lt hlargest
      exact Nat.not_even_iff_odd.mpr hodd (heven (by linarith) (by linarith))
  · intro hsmall
    by_contra hexponent
    have hfull : 2 ^ 52 ≤ mantissa := h.full.resolve_left (by omega)
    have hlarge : 2 ^ 54 * u ≤ (mantissa : Rat) * 2 ^ exponent := by
      rw [← hnext]
      exact mul_le_mul (by exact_mod_cast hfull) (zpow_le_zpow_right₀ one_le_two (by omega))
        (two_zpow_pos _).le (Nat.cast_nonneg _)
    have hnear := h.abs_sub_le (2 ^ 53 - 1) 971 (by norm_num) (by norm_num)
    rw [hlast, abs_of_neg (by linarith)] at hnear
    obtain ⟨habs, -⟩ | ⟨habs, -⟩ := abs_cases (v - (2 ^ 54 - 2) * u) <;> linarith

end IsRounding

/-! ### Doubles -/

/-- A double with these parts, in canonical form. -/
structure HasParts (x : Float) (sign : Sign) (mantissa : Nat) (exponent : Int) : Prop
    extends IsCanonical mantissa exponent where
  exponent_le : exponent ≤ 971
  unpack_eq : x.toModel.unpack = ofParts sign mantissa exponent

namespace HasParts

variable {x : Float} {sign : Sign} {mantissa : Nat} {exponent : Int}

theorem valueOf? (h : HasParts x sign mantissa exponent) :
    Scalar.valueOf? x = some (unit sign * (mantissa * 2 ^ exponent)) := by
  rw [Scalar.valueOf?, h.unpack_eq, ofParts]
  by_cases hzero : mantissa = 0
  · rw [dif_pos hzero, hzero, Nat.cast_zero, zero_mul, mul_zero]
  · rw [dif_neg hzero]

theorem isFinite (h : HasParts x sign mantissa exponent) : x.isFinite = true := by
  change x.toModel.unpack.isFinite = true
  rw [h.unpack_eq, ofParts]
  split <;> rfl

end HasParts

/-- What is read out of a word is canonical, and not too large. -/
theorem isCanonical_of_unpack {word : BitVec Format.binary64.numBits} {sign : Sign}
    {mantissa : Nat} {exponent : Int} {hpos : 0 < mantissa}
    (h : unpack .binary64 word = .finite sign mantissa exponent hpos) :
    IsCanonical mantissa exponent ∧ exponent ≤ 971 := by
  obtain ⟨⟨hlt, hleast, hfull⟩, hfits⟩ := isStorable_of_unpack (by decide) h
  change exponent + (1023 : Nat) + (52 : Nat) + 1 < 2 ^ 11 at hfits
  exact ⟨⟨hlt, hleast, hfull⟩, by omega⟩

theorem hasParts_of_unpack {x : Float} {sign : Sign} {mantissa : Nat} {exponent : Int}
    {hpos : 0 < mantissa} (h : x.toModel.unpack = .finite sign mantissa exponent hpos) :
    HasParts x sign mantissa exponent :=
  ⟨(isCanonical_of_unpack h).1, (isCanonical_of_unpack h).2, by rw [h, ofParts, dif_neg hpos.ne']⟩

theorem hasParts_of_unpack_zero {x : Float} {sign : Sign} (h : x.toModel.unpack = .zero sign) :
    HasParts x sign 0 (-1074) :=
  ⟨isRounding_zero.toIsCanonical, by norm_num, h⟩

/-- **Every double that stands for a number** is canonical. -/
theorem exists_hasParts {x : Float} {q : Rat} (h : valueOf? x = some q) :
    ∃ sign mantissa exponent, HasParts x sign mantissa exponent ∧
      q = unit sign * (mantissa * 2 ^ exponent) := by
  suffices hparts : ∃ sign mantissa exponent, HasParts x sign mantissa exponent by
    obtain ⟨sign, mantissa, exponent, hx⟩ := hparts
    exact ⟨sign, mantissa, exponent, hx, Option.some.inj (h.symm.trans hx.valueOf?)⟩
  unfold valueOf? at h
  split at h
  next hunpack => exact ⟨_, _, _, hasParts_of_unpack hunpack⟩
  next hunpack => exact ⟨_, _, _, hasParts_of_unpack_zero hunpack⟩
  next => cases h

/-- A double that stands for the number nearest to `q`. If there are two, it is the one that ends in
an even digit. -/
structure IsNearest (q : Rat) (x : Float) : Prop where
  isSome : (valueOf? x).isSome = true
  abs_sub_le : ∀ {a b y}, valueOf? x = some a → valueOf? y = some b → |q - a| ≤ |q - b|
  even : ∀ {a b y}, valueOf? x = some a → valueOf? y = some b → |q - b| = |q - a| → b ≠ a →
    Even x.toBits.toNat

/-- The double with this sign that a number of this size is rounded to. -/
def RoundsTo (sign : Sign) (v : Rat) (x : Float) : Prop :=
  ∃ mantissa exponent, IsRounding v mantissa exponent ∧
    x = .ofModel (.pack (ofParts sign mantissa exponent))

theorem unit_positive : unit .positive = 1 := rfl

theorem unit_negative : unit .negative = -1 := rfl

/-- A sign changes no size. -/
theorem abs_unit_mul (sign : Sign) (a : Rat) : |unit sign * a| = |a| := by
  cases sign with
  | positive => rw [unit_positive, one_mul]
  | negative => rw [unit_negative, neg_one_mul, abs_neg]

namespace RoundsTo

variable {sign : Sign} {v : Rat} {x : Float}

theorem hasParts (h : RoundsTo sign v x) (hv : v < overflow) :
    ∃ mantissa exponent, IsRounding v mantissa exponent ∧ HasParts x sign mantissa exponent := by
  obtain ⟨mantissa, exponent, hrounding, rfl⟩ := h
  have hmax := hrounding.exponent_le_iff.mpr hv
  exact ⟨mantissa, exponent, hrounding, hrounding.toIsCanonical, hmax,
    unpack_pack_ofParts sign hrounding.toIsCanonical hmax⟩

/-- A number that is too large gives an infinite double. -/
theorem isFinite_eq_false (h : RoundsTo sign v x) (hv : overflow ≤ v) : x.isFinite = false := by
  obtain ⟨mantissa, exponent, hrounding, rfl⟩ := h
  have hlarge : ¬ exponent ≤ 971 := fun hle => absurd (hrounding.exponent_le_iff.mp hle) hv.not_gt
  change (unpack .binary64 (UnpackedFloat.pack .binary64
    (ofParts sign mantissa exponent))).isFinite = false
  rw [pack_ofParts_of_large sign hrounding.toIsCanonical (by omega), unpack_packedInfinity]
  rfl

/-- The sign can be read off the first digit, and whether the mantissa is even, off the last one. -/
theorem toBits (h : RoundsTo sign v x) (hv : v < overflow) :
    ∃ mantissa exponent, IsRounding v mantissa exponent ∧ HasParts x sign mantissa exponent ∧
      (2 ^ 63 ≤ x.toBits.toNat ↔ sign = .negative) ∧ (Even mantissa → Even x.toBits.toNat) := by
  obtain ⟨mantissa, exponent, hrounding, rfl⟩ := h
  have hmax := hrounding.exponent_le_iff.mpr hv
  obtain ⟨biased, hpack, -, -⟩ := exists_pack_ofParts sign hrounding.toIsCanonical hmax
  have hbits : (Float.ofModel (.pack (ofParts sign mantissa exponent))).toBits.toNat
      = sign.toBitVec.toNat * 2 ^ 63 + biased.toNat * 2 ^ 52 + mantissa % 2 ^ 52 := by
    change (UnpackedFloat.pack .binary64 (ofParts sign mantissa exponent)).toNat = _
    rw [hpack, toNat_packComponents, BitVec.toNat_ofNat]
  have hbiased : biased.toNat < 2 ^ 11 := biased.isLt
  refine ⟨mantissa, exponent, hrounding, ⟨hrounding.toIsCanonical, hmax,
    unpack_pack_ofParts sign hrounding.toIsCanonical hmax⟩, ?_, fun heven => ?_⟩
  · rw [hbits]
    cases sign with
    | positive =>
      have hsign : Sign.positive.toBitVec.toNat = 0 := rfl
      rw [hsign]
      exact ⟨fun _ => by omega, nofun⟩
    | negative =>
      have hsign : Sign.negative.toBitVec.toNat = 1 := rfl
      rw [hsign]
      exact ⟨fun _ => rfl, fun _ => by omega⟩
  · rw [hbits, Nat.even_iff]
    rw [Nat.even_iff] at heven
    omega

/-- **Rounding gives the nearest double**, unless the number is too large. -/
theorem isNearest (h : RoundsTo sign v x) (hnonneg : 0 ≤ v) (hv : v < overflow) :
    IsNearest (unit sign * v) x := by
  obtain ⟨mantissa, exponent, hrounding, hx, -, heven⟩ := h.toBits hv
  have hvalue := hx.valueOf?
  have hdistance (c : Rat) : |unit sign * v - unit sign * c| = |v - c| := by
    rw [← mul_sub, abs_unit_mul]
  -- a number with the other sign is no nearer than zero
  have hother {y : Float} {b : Rat} (hy : valueOf? y = some b) :
      ∃ (k : Nat) (f : Int), k < 2 ^ 53 ∧ -1074 ≤ f ∧ |v - k * 2 ^ f| ≤ |unit sign * v - b| ∧
        (|v - k * 2 ^ f| = |unit sign * v - b| → b = unit sign * (k * 2 ^ f)) := by
    obtain ⟨sign', k, f, hparts, rfl⟩ := exists_hasParts hy
    obtain rfl | hsign : sign' = sign ∨ unit sign' = -unit sign := by
      cases sign <;> cases sign' <;> simp [unit, Sign.apply]
    · exact ⟨k, f, hparts.lt, hparts.least_le, (hdistance _).ge, fun _ => rfl⟩
    · have hsize := mul_two_zpow_nonneg k f
      have hfar : |unit sign * v - unit sign' * (k * 2 ^ f)| = v + k * 2 ^ f := by
        rw [hsign, neg_mul, sub_neg_eq_add, ← mul_add, abs_unit_mul, abs_of_nonneg (by linarith)]
      refine ⟨0, -1074, by norm_num, le_rfl, ?_, fun heq => ?_⟩
      · rw [hfar, Nat.cast_zero, zero_mul, sub_zero, abs_of_nonneg hnonneg]
        linarith
      · rw [hfar, Nat.cast_zero, zero_mul, sub_zero, abs_of_nonneg hnonneg] at heq
        have hzero : (k : Rat) * 2 ^ f = 0 := by linarith
        rw [hzero, Nat.cast_zero, zero_mul, mul_zero, mul_zero]
  refine ⟨by rw [hvalue]; rfl, fun {a b y} ha hb => ?_, fun {a b y} ha hb heq hne => ?_⟩
  all_goals
    obtain rfl : unit sign * (mantissa * 2 ^ exponent) = a := Option.some.inj (hvalue.symm.trans ha)
    obtain ⟨k, f, hk, hf, hle, hsame⟩ := hother hb
    have hnear := hrounding.abs_sub_le k f hk hf
  · rw [hdistance]
    exact hnear.trans hle
  · rw [hdistance] at heq
    have hb' := hsame (le_antisymm hle (heq ▸ hnear))
    refine heven (hrounding.even k f hk hf (le_antisymm (hle.trans heq.le) hnear) fun hequal => ?_)
    exact hne (hb'.trans (congrArg _ hequal))

end RoundsTo

/-! ### Operations on doubles -/

theorem roundsTo_zero (sign : Sign) : RoundsTo sign 0 (.ofModel (.pack (.zero sign))) :=
  ⟨0, -1074, isRounding_zero, rfl⟩

theorem RoundsTo.neg {sign : Sign} {v : Rat} {x : Float} (h : RoundsTo sign v x) :
    RoundsTo (-sign) v (-x) := by
  obtain ⟨mantissa, exponent, hrounding, rfl⟩ := h
  refine ⟨mantissa, exponent, hrounding, ?_⟩
  change Float.ofModel (.pack (unpack .binary64 (UnpackedFloat.pack .binary64
    (ofParts sign mantissa exponent))).neg) = _
  by_cases hmax : exponent ≤ 971
  · rw [unpack_pack_ofParts sign hrounding.toIsCanonical hmax, neg_ofParts]
  · rw [pack_ofParts_of_large sign hrounding.toIsCanonical (by omega), unpack_packedInfinity,
      modelPack_ofParts_of_large (-sign) hrounding.toIsCanonical (by omega)]
    rfl

/-- An integer of either sign is rounded. -/
private theorem exists_roundsTo_normalize (n e : Int) :
    ∃ sign v, 0 ≤ v ∧ unit sign * v = n * 2 ^ e ∧
      RoundsTo sign v (.ofModel (.pack (.normalize .binary64 n e .positive))) := by
  obtain hn | hn := le_or_gt 0 n
  · obtain ⟨n, rfl⟩ := Int.eq_ofNat_of_zero_le hn
    obtain ⟨m', e', heq, hrounding⟩ := exists_normalize_natCast n e
    exact ⟨.positive, _, by positivity, one_mul _, m', e', hrounding, by rw [heq]⟩
  · obtain ⟨n, rfl⟩ := Int.exists_eq_neg_ofNat hn.le
    have hpos : 0 < n := by omega
    obtain ⟨m', e', heq, hrounding⟩ := exists_normalize_neg_natCast hpos e
    refine ⟨.negative, _, by positivity, ?_, m', e', hrounding, by rw [heq]⟩
    rw [unit_negative, Int.cast_neg, Int.cast_natCast, neg_one_mul, neg_mul]

/-- A signed number in smaller units. -/
private theorem unit_mul_eq_shiftLeft (sign : Sign) (m : Nat) {e least : Int} (h : least ≤ e) :
    unit sign * (m * 2 ^ e)
      = (sign.apply (m <<< (e - least).toNat : Nat) : Int) * 2 ^ least := by
  have hleast : e - (e - least).toNat = least := by omega
  rw [mul_two_zpow_eq_shiftLeft m (e - least).toNat e, hleast]
  cases sign with
  | positive => rw [unit_positive, one_mul, Sign.apply, Int.cast_natCast]
  | negative => rw [unit_negative, neg_one_mul, Sign.apply, Int.cast_neg, Int.cast_natCast, neg_mul]

/-- Two numbers that are not zero are multiples of the smaller power of two, and are added
exactly before the sum is rounded. -/
private theorem exists_roundsTo_add_of_ne_zero (sign sign' : Sign) {m m' : Nat} (hm : m ≠ 0)
    (hm' : m' ≠ 0) (e e' : Int) :
    ∃ sign'' v, 0 ≤ v ∧
      unit sign'' * v = unit sign * (m * 2 ^ e) + unit sign' * (m' * 2 ^ e') ∧
      RoundsTo sign'' v
        (.ofModel (.pack (.add .binary64 (ofParts sign m e) (ofParts sign' m' e')))) := by
  have hfirst := unit_mul_eq_shiftLeft sign m (min_le_left e e')
  have hsecond := unit_mul_eq_shiftLeft sign' m' (min_le_right e e')
  rw [hfirst, hsecond, ← add_mul, ← Int.cast_add, ofParts, ofParts, dif_neg hm, dif_neg hm']
  exact exists_roundsTo_normalize _ (min e e')

namespace HasParts

variable {x y : Float} {sign sign' : Sign} {m m' : Nat} {e e' : Int}

theorem neg (hx : HasParts x sign m e) : HasParts (-x) (-sign) m e := by
  refine ⟨hx.toIsCanonical, hx.exponent_le, ?_⟩
  change unpack .binary64 (UnpackedFloat.pack .binary64 x.toModel.unpack.neg) = _
  rw [hx.unpack_eq, neg_ofParts, unpack_pack_ofParts _ hx.toIsCanonical hx.exponent_le]

/-- **A sum** is rounded. -/
theorem add (hx : HasParts x sign m e) (hy : HasParts y sign' m' e') :
    ∃ sign'' v, 0 ≤ v ∧
      unit sign'' * v = unit sign * (m * 2 ^ e) + unit sign' * (m' * 2 ^ e') ∧
      RoundsTo sign'' v (x + y) := by
  have hadd : x + y
      = .ofModel (.pack (.add .binary64 (ofParts sign m e) (ofParts sign' m' e'))) := by
    rw [← hx.unpack_eq, ← hy.unpack_eq]
    rfl
  rw [hadd]
  by_cases hm : m = 0
  · subst hm
    by_cases hm' : m' = 0
    · subst hm'
      refine ⟨if sign == sign' then sign else .positive, 0, le_rfl, by simp, ?_⟩
      have hzero : UnpackedFloat.add .binary64 (ofParts sign 0 e) (ofParts sign' 0 e')
          = .zero (if sign == sign' then sign else .positive) := by
        cases sign <;> cases sign' <;> rfl
      rw [hzero]
      exact roundsTo_zero _
    · refine ⟨sign', _, mul_two_zpow_nonneg m' e', by simp, m', e', hy.isRounding, ?_⟩
      rw [ofParts, ofParts, dif_pos rfl, dif_neg hm']
      rfl
  · by_cases hm' : m' = 0
    · subst hm'
      refine ⟨sign, _, mul_two_zpow_nonneg m e, by simp, m, e, hx.isRounding, ?_⟩
      rw [ofParts, ofParts, dif_pos rfl, dif_neg hm]
      rfl
    · exact exists_roundsTo_add_of_ne_zero sign sign' hm hm' e e'

/-- **A product** is rounded. -/
theorem mul (hx : HasParts x sign m e) (hy : HasParts y sign' m' e') :
    RoundsTo (sign * sign') (m * 2 ^ e * (m' * 2 ^ e')) (x * y) := by
  change RoundsTo _ _ (.ofModel (.pack (.mul .binary64 x.toModel.unpack y.toModel.unpack)))
  rw [hx.unpack_eq, hy.unpack_eq, ofParts, ofParts]
  split
  next hzero =>
    rw [hzero, Nat.cast_zero, zero_mul, zero_mul]
    split <;> exact roundsTo_zero _
  next hm =>
    split
    next hzero =>
      rw [hzero, Nat.cast_zero, zero_mul, mul_zero]
      exact roundsTo_zero _
    next hm' =>
      have hdigits : e + e' ≤ -1074 ∨ 52 ≤ (m * m').log2 := by
        rw [Nat.le_log2 (Nat.mul_ne_zero hm hm')]
        obtain he | hfull := hx.full
        · obtain he' | hfull' := hy.full
          · exact .inl (by omega)
          · exact .inr (hfull'.trans (Nat.le_mul_of_pos_left _ (Nat.pos_of_ne_zero hm)))
        · exact .inr (hfull.trans (Nat.le_mul_of_pos_right _ (Nat.pos_of_ne_zero hm')))
      obtain ⟨m'', e'', heq, hrounding⟩ := exists_mul sign sign' (Nat.pos_of_ne_zero hm)
        (Nat.pos_of_ne_zero hm') hdigits
      exact ⟨m'', e'', hrounding, by rw [heq]⟩

/-- **A quotient** is rounded. -/
theorem div (hx : HasParts x sign m e) (hy : HasParts y sign' m' e') (hm' : m' ≠ 0) :
    RoundsTo (sign / sign') (m * 2 ^ e / (m' * 2 ^ e')) (x / y) := by
  change RoundsTo _ _ (.ofModel (.pack (.div .binary64 x.toModel.unpack y.toModel.unpack)))
  rw [hx.unpack_eq, hy.unpack_eq, ofParts, ofParts, dif_neg hm']
  split
  next hzero =>
    rw [hzero, Nat.cast_zero, zero_mul, zero_div]
    exact roundsTo_zero _
  next hm =>
    obtain ⟨m'', e'', heq, hrounding⟩ := exists_div sign sign' e e'
      (Nat.pos_of_ne_zero hm) (Nat.pos_of_ne_zero hm')
    exact ⟨m'', e'', hrounding, by rw [heq]⟩

end HasParts

/-- A natural number is rounded. -/
theorem roundsTo_ofUInt64 (n : UInt64) : RoundsTo .positive n.toNat n.toFloat := by
  change RoundsTo _ _ (.ofModel (.pack (.normalize .binary64 n.toNat 0 .positive)))
  obtain ⟨m, e, heq, hrounding⟩ := exists_normalize_natCast n.toNat 0
  rw [zpow_zero, mul_one] at hrounding
  exact ⟨m, e, hrounding, by rw [heq]⟩

/-! ### Decimals -/

/-- The check for a double that is a power of ten. -/
private def isPowerOfTen (n : Nat) : UnpackedFloat → Bool
  | .finite .positive m e _ =>
    decide (-52 ≤ e) && m * 2 ^ (e + 52).toNat == 10 ^ n * 2 ^ 52
  | _ => false

/-- The powers of ten that are kept in a table are exact. -/
private theorem exists_hasParts_powerOfTen {n : Nat} (hn : n < 23) : ∃ m e,
    HasParts (Float.exactlyRepresentablePowersOfTen[n]) .positive m e ∧ m ≠ 0 ∧
      (m : Rat) * 2 ^ e = 10 ^ n := by
  have htable : ∀ n, (hn : n < 23) →
      isPowerOfTen n (Float.exactlyRepresentablePowersOfTen[n]).toModel.unpack = true := by
    decide
  have hpower := htable n hn
  unfold isPowerOfTen at hpower
  split at hpower
  next m e hpos hunpack =>
    simp only [Bool.and_eq_true, decide_eq_true_eq, beq_iff_eq] at hpower
    obtain ⟨hexponent, hvalue⟩ := hpower
    refine ⟨m, e, hasParts_of_unpack hunpack, hpos.ne', ?_⟩
    have hshift : (2 : Rat) ^ (e + 52).toNat = 2 ^ e * 2 ^ 52 := by
      rw [← zpow_natCast, Int.toNat_of_nonneg (by omega), zpow_add₀ two_ne_zero]
      rfl
    have hcast : (m : Rat) * 2 ^ (e + 52).toNat = 10 ^ n * 2 ^ 52 := by exact_mod_cast hvalue
    rw [hshift, ← mul_assoc] at hcast
    exact mul_right_cancel₀ (by norm_num) hcast
  next => cases hpower

/-- A natural number with few digits is a double. -/
private theorem exists_hasParts_ofNat {m : Nat} (hm : m < 2 ^ 53) : ∃ k e,
    HasParts m.toUInt64.toFloat .positive k e ∧ (k : Rat) * 2 ^ e = m := by
  have hword : m.toUInt64.toNat = m := by
    rw [Nat.toUInt64, UInt64.toNat_ofNat', Nat.mod_eq_of_lt (by omega)]
  have hsmall : (m : Rat) < overflow := by
    calc (m : Rat) < 2 ^ 53 := by exact_mod_cast hm
      _ ≤ 2 ^ 1023 := pow_le_pow_right₀ one_le_two (by norm_num)
      _ ≤ overflow := two_pow_le_overflow
  have hrounds := roundsTo_ofUInt64 m.toUInt64
  rw [hword] at hrounds
  obtain ⟨k, e, hrounding, hparts⟩ := hrounds.hasParts hsmall
  exact ⟨k, e, hparts, hrounding.eq_of_canonical hm (f := 0) (by norm_num)
    (by rw [zpow_zero, mul_one])⟩

/-- A power of ten is at least that power of two. -/
private theorem two_pow_le_ten_pow (n : Nat) : (2 : Rat) ^ n ≤ 10 ^ n :=
  pow_le_pow_left₀ two_pos.le (by norm_num) n

/-- Large powers of ten are not computed: with one of them, no number is a double. -/
private theorem roundsTo_mul_ten_pow {m : Nat} (hm : 0 < m) (n : Nat) :
    RoundsTo .positive (m * 10 ^ n)
      (.ofModel (.pack (UnpackedFloat.ofScientific .binary64 m n))) := by
  have hexponentBits : (2 : Int) ^ Format.binary64.exponentBits = 2048 := rfl
  have hshift : 0 < m <<< 53 := by
    rw [Nat.shiftLeft_eq]
    exact Nat.mul_pos hm (Nat.two_pow_pos 53)
  have hten : 0 < 10 ^ n := Nat.pow_pos (by decide)
  have hdigits : -53 + 0 ≤ (-1074 : Int) ∨ 52 ≤ (m <<< 53 * 10 ^ n).log2 := by
    refine .inr ((Nat.le_log2 (Nat.mul_pos hshift hten).ne').mpr ?_)
    calc 2 ^ 52 ≤ 1 * 2 ^ 53 * 1 := by norm_num
      _ ≤ m * 2 ^ 53 * 10 ^ n := Nat.mul_le_mul (Nat.mul_le_mul_right _ hm) hten
      _ = m <<< 53 * 10 ^ n := by rw [Nat.shiftLeft_eq]
  obtain ⟨k, e, hmul, hrounding⟩ := exists_mul .positive .positive hshift hten hdigits
  have hvalue : ((m <<< 53 : Nat) : Rat) * 2 ^ (-53 : Int) * ((10 ^ n : Nat) * 2 ^ (0 : Int))
      = m * 10 ^ n := by
    have hunit : (2 : Rat) ^ 53 * 2 ^ (-53 : Int) = 1 := by norm_num
    rw [Nat.shiftLeft_eq, Nat.cast_mul, Nat.cast_pow, Nat.cast_ofNat, mul_assoc _ _ (2 ^ _), hunit,
      zpow_zero, mul_one, mul_one, Nat.cast_pow, Nat.cast_ofNat]
  rw [hvalue] at hrounding
  refine ⟨k, e, hrounding, ?_⟩
  unfold UnpackedFloat.ofScientific
  rw [dif_neg hm.ne', hexponentBits]
  by_cases hlarge : (n : Int) > 2048
  · have hoverflow : overflow ≤ m * 10 ^ n := by
      calc overflow ≤ 2 ^ 1024 := sub_le_self _ (pow_pos two_pos _).le
        _ ≤ 2 ^ n := pow_le_pow_right₀ one_le_two (by omega)
        _ ≤ 10 ^ n := two_pow_le_ten_pow n
        _ ≤ m * 10 ^ n := le_mul_of_one_le_left (by positivity) (by exact_mod_cast hm)
    have hexponent : ¬ e ≤ 971 := fun hle =>
      absurd (hrounding.exponent_le_iff.mp hle) hoverflow.not_gt
    rw [if_pos hlarge, modelPack_ofParts_of_large _ hrounding.toIsCanonical (by omega)]
  · rw [if_neg hlarge, if_neg (by omega), if_pos (by omega)]
    exact congrArg (fun u => Float.ofModel (.pack u)) hmul

/-- Neither are large powers in a denominator: with one of them, a number is rounded to zero. -/
private theorem roundsTo_div_ten_pow {m : Nat} (hm : 0 < m) {n : Nat} (hn : 0 < n) :
    RoundsTo .positive (m / 10 ^ n)
      (.ofModel (.pack (UnpackedFloat.ofScientific .binary64 m (-(n : Int))))) := by
  have hexponentBits : (2 : Int) ^ Format.binary64.exponentBits = 2048 := rfl
  have hten : 0 < 10 ^ n := Nat.pow_pos (by decide)
  obtain ⟨k, e, hdiv, hrounding⟩ := exists_div .positive .positive 0 0 hm hten
  have hvalue : (m : Rat) * 2 ^ (0 : Int) / ((10 ^ n : Nat) * 2 ^ (0 : Int)) = m / 10 ^ n := by
    rw [zpow_zero, mul_one, mul_one, Nat.cast_pow, Nat.cast_ofNat]
  rw [hvalue] at hrounding
  refine ⟨k, e, hrounding, ?_⟩
  unfold UnpackedFloat.ofScientific
  rw [dif_neg hm.ne', hexponentBits, if_neg (by omega)]
  by_cases hsmall : -(n : Int) < -(2048 + m.log2)
  · have hbelow : (m : Rat) / 10 ^ n < 2 ^ (-1075 : Int) := by
      rw [div_lt_iff₀ (by positivity)]
      calc (m : Rat) < 2 ^ (m.log2 + 1) := by exact_mod_cast Nat.lt_log2_self
        _ = 2 ^ ((m.log2 + 1 : Nat) : Int) := (zpow_natCast _ _).symm
        _ ≤ 2 ^ (-1075 + (n : Int)) := zpow_le_zpow_right₀ one_le_two (by omega)
        _ = 2 ^ (-1075 : Int) * 2 ^ n := by rw [zpow_add₀ two_ne_zero, zpow_natCast]
        _ ≤ 2 ^ (-1075 : Int) * 10 ^ n :=
            mul_le_mul_of_nonneg_left (two_pow_le_ten_pow n) (two_zpow_pos _).le
    rw [if_pos hsmall, hrounding.eq_zero_of_lt (by positivity) hbelow]
    rfl
  · have hnat : (-(-(n : Int))).toNat = n := by omega
    rw [if_neg hsmall, if_neg (by omega)]
    simp only [hnat]
    exact congrArg (fun u => Float.ofModel (.pack u)) hdiv

/-- **A decimal is rounded.** -/
theorem roundsTo_ofScientific (m : Nat) (negative : Bool) (n : Nat) :
    RoundsTo .positive (if negative then m / 10 ^ n else m * 10 ^ n)
      (OfScientific.ofScientific m negative n) := by
  change RoundsTo _ _ (Float.ofScientific m negative n)
  by_cases hfast : m < 2 ^ 53 ∧ n ≤ 22
  · rw [Float.ofScientific, dif_pos hfast]
    obtain ⟨k, e, hm, hvalue⟩ := exists_hasParts_ofNat hfast.1
    obtain ⟨k', e', hpower, hne, hvalue'⟩ := exists_hasParts_powerOfTen (Nat.lt_succ_of_le hfast.2)
    rw [← hvalue, ← hvalue']
    cases negative
    · exact hm.mul hpower
    · exact hm.div hpower hne
  · rw [Float.ofScientific, dif_neg hfast]
    obtain rfl | hm := Nat.eq_zero_or_pos m
    · rw [Nat.cast_zero, zero_div, zero_mul, ite_self]
      exact roundsTo_zero _
    · cases negative with
      | false => exact roundsTo_mul_ten_pow hm n
      | true =>
        change RoundsTo .positive (m / 10 ^ n)
          (.ofModel (.pack (UnpackedFloat.ofScientific .binary64 m (Int.negOfNat n))))
        obtain rfl | hn := Nat.eq_zero_or_pos n
        · have hplain := roundsTo_mul_ten_pow hm 0
          rw [pow_zero, mul_one] at hplain
          rw [pow_zero, div_one]
          exact hplain
        · rw [Int.negOfNat_eq]
          exact roundsTo_div_ten_pow hm hn

/-- **The value of a decimal is rounded**, with its sign. -/
theorem roundsTo_decimal (d : Text.Decimal) :
    RoundsTo (if d.negative then .negative else .positive) (d.mantissa * 10 ^ d.exponent)
      d.toFloat := by
  obtain ⟨negative, mantissa, exponent⟩ := d
  obtain ⟨size, hsize, heq⟩ : ∃ size, RoundsTo .positive (mantissa * 10 ^ exponent) size ∧
      Text.Decimal.toFloat ⟨negative, mantissa, exponent⟩ = if negative then -size else size := by
    cases exponent with
    | ofNat e => exact ⟨_, roundsTo_ofScientific mantissa false e, rfl⟩
    | negSucc e =>
      have hdiv := roundsTo_ofScientific mantissa true (e + 1)
      rw [if_pos rfl, div_eq_mul_inv, ← zpow_negSucc] at hdiv
      exact ⟨_, hdiv, rfl⟩
  rw [heq]
  cases negative with
  | false => exact hsize
  | true => exact hsize.neg

end SceneCanvas.Scalar
