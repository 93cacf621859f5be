import SceneCanvas.Proofs.BlurReach

/-!
# Singles in order

Singles that are not negative stand for amounts (`Scalar.amountOf?`). They are compared by amount
(`Scalar.lt_iff_of_amount`). A product is rounded from the exact one (`Scalar.exists_amount_mul`), so
larger amounts have larger products; a difference that needs few digits is exact
(`Scalar.amount_sub`), as what is behind the point of an amount does (`Scalar.exists_fraction`).

Products and differences are those of numbers up to 255 only, which is all that bytes lead to.
-/

namespace SceneCanvas.Scalar

open Float.Model
open Float.Model.UnpackedFloat

/-- The number that a single stands for, if it is finite and not negative. -/
def amountOf? (x : Float32) : Option Rat :=
  match x.toModel.unpack with
  | .finite .positive mantissa exponent _ => some (mantissa * 2 ^ exponent)
  | .zero _ => some 0
  | _ => none

/-- A single has these parts, and a minus sign only if it is zero. -/
structure HasAmount (x : Float32) (sign : Sign) (mantissa : Nat) (exponent : Int) : Prop
    extends IsStorable .binary32 mantissa exponent where
  unpack_eq : x.toModel.unpack = ofParts sign mantissa exponent
  sign_eq : mantissa ≠ 0 → sign = .positive

namespace HasAmount

variable {x : Float32} {sign : Sign} {m : Nat} {e : Int}

theorem amountOf?_eq (h : HasAmount x sign m e) : amountOf? x = some ((m : Rat) * 2 ^ e) := by
  rw [amountOf?, h.unpack_eq, ofParts]
  by_cases hzero : m = 0
  · rw [dif_pos hzero, hzero, Nat.cast_zero, zero_mul]
  · rw [dif_neg hzero, h.sign_eq hzero]

end HasAmount

theorem exists_hasAmount {x : Float32} {q : Rat} (h : amountOf? x = some q) :
    ∃ sign m e, HasAmount x sign m e ∧ q = m * 2 ^ e := by
  rw [amountOf?] at h
  split at h
  next m e hpos hx =>
    refine ⟨.positive, m, e, ⟨isStorable_of_unpack (by decide) hx, ?_, fun _ => rfl⟩,
      (Option.some.inj h).symm⟩
    rw [hx, ofParts, dif_neg hpos.ne']
  next sign hx =>
    have hzero : IsStorable .binary32 0 (-149) := ⟨⟨by decide, by decide, .inl rfl⟩, by decide⟩
    refine ⟨sign, 0, -149, ⟨hzero, hx, fun hne => absurd rfl hne⟩, ?_⟩
    rw [Nat.cast_zero, zero_mul]
    exact (Option.some.inj h).symm
  next => cases h

theorem amount_nonneg {x : Float32} {q : Rat} (h : amountOf? x = some q) : 0 ≤ q := by
  obtain ⟨-, m, e, -, rfl⟩ := exists_hasAmount h
  positivity

theorem isFinite_of_amount {x : Float32} {q : Rat} (h : amountOf? x = some q) :
    x.isFinite = true := by
  change x.toModel.unpack.isFinite = true
  rw [amountOf?] at h
  split at h
  next hx => rw [hx]; rfl
  next hx => rw [hx]; rfl
  next => cases h

/-! ### Order -/

/-- **Singles are compared by amount.** -/
theorem lt_iff_of_amount {x y : Float32} {q r : Rat} (hx : amountOf? x = some q)
    (hy : amountOf? y = some r) : x < y ↔ q < r := by
  obtain ⟨sign, m, e, hx', rfl⟩ := exists_hasAmount hx
  obtain ⟨sign', m', e', hy', rfl⟩ := exists_hasAmount hy
  rw [single_lt_iff, hx'.unpack_eq, hy'.unpack_eq, ofParts, ofParts]
  by_cases hzero : m = 0
  · rw [dif_pos hzero, hzero, Nat.cast_zero, zero_mul]
    by_cases hzero' : m' = 0
    · rw [dif_pos hzero', hzero', Nat.cast_zero, zero_mul]
      exact iff_of_false (mt Option.some.inj (by decide : Ordering.eq ≠ .lt)) (lt_irrefl _)
    · rw [dif_neg hzero', hy'.sign_eq hzero']
      exact iff_of_true rfl (mul_two_zpow_pos hzero' e')
  · rw [dif_neg hzero, hx'.sign_eq hzero]
    by_cases hzero' : m' = 0
    · rw [dif_pos hzero', hzero', Nat.cast_zero, zero_mul]
      exact iff_of_false (mt Option.some.inj (by decide : Ordering.gt ≠ .lt))
        (mul_two_zpow_pos hzero e).not_gt
    · rw [dif_neg hzero', hy'.sign_eq hzero', ← compare_lt_iff_lt,
        ← hx'.toIsPart.compare_eq hy'.toIsPart]
      exact Option.some_inj

/-- What lies between zero and an amount is an amount. -/
theorem exists_amount_of_not_lt {x y : Float32} {r : Rat} (hnumber : x.isNaN = false)
    (hlow : ¬ x < 0.0) (hhigh : ¬ y < x) (hy : amountOf? y = some r) :
    ∃ q, amountOf? x = some q ∧ q ≤ r := by
  obtain ⟨s, hzero⟩ : ∃ s, (0.0 : Float32).toModel.unpack = .zero s := ⟨_, rfl⟩
  have hamount : ∃ q, amountOf? x = some q := by
    rw [single_lt_iff, hzero] at hlow
    obtain ⟨sign', m', e', hparts, -⟩ := exists_hasAmount hy
    rw [single_lt_iff, hparts.unpack_eq] at hhigh
    change x.toModel.unpack.isNaN = false at hnumber
    rw [amountOf?]
    cases hx : x.toModel.unpack with
    | notANumber =>
      rw [hx] at hnumber
      cases hnumber
    | infinity sign =>
      rw [hx] at hlow hhigh
      cases sign with
      | negative => exact absurd rfl hlow
      | positive =>
        refine absurd ?_ hhigh
        rw [ofParts]
        split
        next => rfl
        next => cases sign' <;> rfl
    | zero sign => exact ⟨_, rfl⟩
    | finite sign m e hpos =>
      rw [hx] at hlow
      cases sign with
      | negative => exact absurd rfl hlow
      | positive => exact ⟨_, rfl⟩
  obtain ⟨q, hq⟩ := hamount
  exact ⟨q, hq, not_lt.mp (mt (lt_iff_of_amount hy hq).mpr hhigh)⟩

/-! ### Products and differences -/

/-- Numbers that a byte could hold are far from the largest ones. -/
theorem IsPart.exponent_le {m : Nat} {e : Int} (h : IsPart .binary32 m e)
    (hsmall : (m : Rat) * 2 ^ e ≤ 255) : e ≤ -16 := by
  by_contra hlarge
  have hleast : Format.binary32.minExponent = -149 := rfl
  have hfull : 2 ^ 23 ≤ m := h.full.resolve_left (by omega)
  have hexponent : (2 : Rat) ^ (-15 : Int) ≤ 2 ^ e := zpow_le_zpow_right₀ one_le_two (by omega)
  have hlow : (256 : Rat) ≤ m * 2 ^ e := by
    calc (256 : Rat) = 2 ^ 23 * 2 ^ (-15 : Int) := by norm_num
      _ ≤ m * 2 ^ e :=
        mul_le_mul (by exact_mod_cast hfull) hexponent (two_zpow_pos _).le m.cast_nonneg
  linarith

/-- So they can be stored. -/
theorem IsPart.isStorable {m : Nat} {e : Int} (h : IsPart .binary32 m e)
    (hsmall : (m : Rat) * 2 ^ e ≤ 255) : IsStorable .binary32 m e where
  toIsPart := h
  fits := by
    have hexponent := h.exponent_le hsmall
    change e + (127 : Nat) + (23 : Nat) + 1 < 2 ^ 8
    omega

theorem hasAmount_pack {sign : Sign} {m : Nat} {e : Int} (h : IsStorable .binary32 m e)
    (hsign : m ≠ 0 → sign = .positive) :
    HasAmount (.ofModel (.pack (ofParts sign m e))) sign m e :=
  ⟨h, unpack_pack .binary32 sign h, hsign⟩

theorem amount_pack_zero (sign : Sign) :
    amountOf? (.ofModel (.pack (.zero sign))) = some 0 := by
  cases sign <;> rfl

theorem nearest_255 : Nearest .binary32 255 255 := by
  have hpart : IsPart .binary32 16711680 (-16) := by constructor <;> decide
  have hvalue : ((16711680 : Nat) : Rat) * 2 ^ (-16 : Int) = 255 := by norm_num
  exact hvalue ▸ hpart.nearest_self

theorem nearest_zero : Nearest .binary32 0 0 := by
  have hpart : IsPart .binary32 0 (-149) := by constructor <;> decide
  have hvalue : ((0 : Nat) : Rat) * 2 ^ (-149 : Int) = 0 := by rw [Nat.cast_zero, zero_mul]
  exact hvalue ▸ hpart.nearest_self

/-- What is rounded and then stored has the nearest amount. -/
theorem exists_amount_rounded {mantissa : Nat} {exponent : Int}
    (hdigits : exponent ≤ -149 ∨ 23 ≤ mantissa.log2)
    (hsmall : (mantissa : Rat) * 2 ^ exponent ≤ 255) :
    ∃ s, Nearest .binary32 (mantissa * 2 ^ exponent) s ∧ amountOf? (.ofModel
      (.pack (roundWithAccuracy .binary32 .positive mantissa exponent .exact))) = some s := by
  obtain ⟨m, e, hrounded, hpart, hnearest⟩ := exists_isPart .binary32 .positive hdigits
  rw [hrounded]
  have hstorable := hpart.isStorable (hnearest.mono nearest_255 hsmall)
  exact ⟨_, hnearest, (hasAmount_pack hstorable fun _ => rfl).amountOf?_eq⟩

/-- A product has digits enough, unless both numbers lack some and it is close to nothing. -/
theorem IsPart.digits_mul {m m' : Nat} {e e' : Int} (h : IsPart .binary32 m e)
    (h' : IsPart .binary32 m' e') (hne : m ≠ 0) (hne' : m' ≠ 0) :
    e + e' ≤ -149 ∨ 23 ≤ (m * m').log2 := by
  rw [Nat.le_log2 (Nat.mul_ne_zero hne hne')]
  obtain hleast | hfull := h.full
  · obtain hleast' | hfull' := h'.full
    · exact .inl (by rw [hleast, hleast']; decide)
    · exact .inr (hfull'.trans (Nat.le_mul_of_pos_left m' (Nat.pos_of_ne_zero hne)))
  · exact .inr (hfull.trans (Nat.le_mul_of_pos_right m (Nat.pos_of_ne_zero hne')))

/-- **The product** of two amounts is rounded to the nearest one. -/
theorem exists_amount_mul {x y : Float32} {q r : Rat} (hx : amountOf? x = some q)
    (hy : amountOf? y = some r) (hsmall : q * r ≤ 255) :
    ∃ s, Nearest .binary32 (q * r) s ∧ amountOf? (x * y) = some s := by
  obtain ⟨sign, m, e, hx', rfl⟩ := exists_hasAmount hx
  obtain ⟨sign', m', e', hy', rfl⟩ := exists_hasAmount hy
  have hproduct : x * y = .ofModel (.pack (UnpackedFloat.mul .binary32 x.toModel.unpack
    y.toModel.unpack)) := rfl
  rw [hproduct, hx'.unpack_eq, hy'.unpack_eq, ofParts, ofParts]
  by_cases hzero : m = 0 ∨ m' = 0
  · have hvalue : (m : Rat) * 2 ^ e * (m' * 2 ^ e') = 0 := by
      obtain rfl | rfl := hzero
      · rw [Nat.cast_zero, zero_mul, zero_mul]
      · rw [Nat.cast_zero, zero_mul, mul_zero]
    rw [hvalue]
    refine ⟨0, nearest_zero, ?_⟩
    obtain rfl | rfl := hzero
    · rw [dif_pos rfl]
      split <;> exact amount_pack_zero _
    · rw [dif_pos rfl]
      split <;> exact amount_pack_zero _
  · obtain ⟨hne, hne'⟩ := not_or.mp hzero
    have hvalue : (m : Rat) * 2 ^ e * (m' * 2 ^ e') = (m * m' : Nat) * 2 ^ (e + e') := by
      rw [zpow_add₀ two_ne_zero]
      push_cast
      ring
    rw [dif_neg hne, dif_neg hne', hx'.sign_eq hne, hy'.sign_eq hne', hvalue]
    rw [hvalue] at hsmall
    exact exists_amount_rounded (hx'.digits_mul hy'.toIsPart hne hne') hsmall

/-- So does what is given as many digits as it needs before that. -/
theorem exists_amount_normalize {n : Nat} {e : Int} (hsmall : (n : Rat) * 2 ^ e ≤ 255) :
    ∃ s, Nearest .binary32 (n * 2 ^ e) s ∧
      amountOf? (.ofModel (.pack (.normalize .binary32 n e .positive))) = some s := by
  obtain rfl | hpos := Nat.eq_zero_or_pos n
  · rw [Nat.cast_zero, zero_mul]
    exact ⟨0, nearest_zero, amount_pack_zero _⟩
  · have hcompare : compare (n : Int) 0 = .gt := Int.compare_eq_gt.mpr (by exact_mod_cast hpos)
    obtain ⟨m, f, hround, hvalue, hdigits⟩ := exists_round_eq .binary32 .positive hpos e
    rw [UnpackedFloat.normalize, hcompare]
    dsimp only
    rw [Int.toNat_natCast, hround, hvalue]
    exact exists_amount_rounded hdigits (hvalue ▸ hsmall)

/-- The parts of a difference, in the smaller of the two units. -/
private theorem exists_sub_eq_normalize {m m' : Nat} (e e' : Int) (hm : 0 < m) (hm' : 0 < m') :
    ∃ (n : Int) (f : Int), UnpackedFloat.sub .binary32 (.finite .positive m e hm)
        (.finite .positive m' e' hm') = .normalize .binary32 n f .positive ∧
      (m : Rat) * 2 ^ e - m' * 2 ^ e' = n * 2 ^ f := by
  refine ⟨(m <<< (e - min e e').toNat : Nat) - (m' <<< (e' - min e e').toNat : Nat), min e e',
    rfl, ?_⟩
  have hleft := mul_two_zpow_eq_shiftLeft m (e - min e e').toNat e
  have hright := mul_two_zpow_eq_shiftLeft m' (e' - min e e').toNat e'
  rw [Int.toNat_of_nonneg (by omega), sub_sub_cancel] at hleft hright
  rw [hleft, hright, Int.cast_sub, Int.cast_natCast, Int.cast_natCast, sub_mul]

/-- The parts of a sum, in the smaller of the two units. -/
private theorem exists_add_eq_normalize {m m' : Nat} (e e' : Int) (hm : 0 < m) (hm' : 0 < m') :
    ∃ (n : Nat) (f : Int), UnpackedFloat.add .binary32 (.finite .positive m e hm)
        (.finite .positive m' e' hm') = .normalize .binary32 n f .positive ∧
      (m : Rat) * 2 ^ e + m' * 2 ^ e' = n * 2 ^ f := by
  refine ⟨m <<< (e - min e e').toNat + m' <<< (e' - min e e').toNat, min e e', rfl, ?_⟩
  have hleft := mul_two_zpow_eq_shiftLeft m (e - min e e').toNat e
  have hright := mul_two_zpow_eq_shiftLeft m' (e' - min e e').toNat e'
  rw [Int.toNat_of_nonneg (by omega), sub_sub_cancel] at hleft hright
  rw [hleft, hright, Nat.cast_add, add_mul]

/-- Nothing taken away leaves an amount as it is. -/
private theorem amount_sub_zero {x : Float32} {sign : Sign} {m : Nat} {e : Int}
    (hx : HasAmount x sign m e) (sign' : Sign) :
    amountOf? (.ofModel (.pack (.sub .binary32 (ofParts sign m e) (.zero sign'))))
      = some ((m : Rat) * 2 ^ e) := by
  have hkept := (hasAmount_pack hx.toIsStorable hx.sign_eq).amountOf?_eq
  by_cases hzero : m = 0
  · subst hzero
    rw [Nat.cast_zero, zero_mul]
    cases sign <;> cases sign' <;> exact amount_pack_zero _
  · rw [ofParts, dif_neg hzero] at hkept ⊢
    exact hkept

/-- **A difference** that needs no more digits than there are is exact. -/
theorem amount_sub {x y : Float32} {q r : Rat} (hx : amountOf? x = some q)
    (hy : amountOf? y = some r) {k : Nat} {f : Int} (hk : k < 2 ^ 24) (hf : -149 ≤ f)
    (hdifference : q - r = k * 2 ^ f) (hsmall : q - r ≤ 255) :
    amountOf? (x - y) = some (q - r) := by
  obtain ⟨sign, m, e, hx', rfl⟩ := exists_hasAmount hx
  obtain ⟨sign', m', e', hy', rfl⟩ := exists_hasAmount hy
  have hsub : x - y = .ofModel (.pack (UnpackedFloat.sub .binary32 x.toModel.unpack
    y.toModel.unpack)) := rfl
  have hnonneg : (0 : Rat) ≤ m * 2 ^ e - m' * 2 ^ e' := by
    rw [hdifference]
    positivity
  rw [hsub, hx'.unpack_eq, hy'.unpack_eq]
  by_cases hzero' : m' = 0
  · subst hzero'
    rw [Nat.cast_zero, zero_mul, sub_zero]
    exact amount_sub_zero hx' sign'
  · have hpos' := mul_two_zpow_pos hzero' e'
    have hzero : m ≠ 0 := by
      rintro rfl
      rw [Nat.cast_zero, zero_mul] at hnonneg
      linarith
    obtain ⟨n, g, hdiff, hvalue⟩ :=
      exists_sub_eq_normalize e e' (Nat.pos_of_ne_zero hzero) (Nat.pos_of_ne_zero hzero')
    have hn : 0 ≤ n := by
      rw [hvalue] at hnonneg
      exact_mod_cast nonneg_of_mul_nonneg_left hnonneg (two_zpow_pos g)
    obtain ⟨n, rfl⟩ := Int.eq_ofNat_of_zero_le hn
    rw [Int.cast_natCast] at hvalue
    obtain ⟨s, hnearest, hamount⟩ := exists_amount_normalize (hvalue ▸ hsmall)
    rw [← hvalue] at hnearest
    rw [ofParts, ofParts, dif_neg hzero, dif_neg hzero', hx'.sign_eq hzero, hy'.sign_eq hzero',
      hdiff, hamount, hnearest.eq_of_eq_mul hk hf hdifference]

/-- **A sum** of two positive amounts that needs no more digits than there are is exact. -/
theorem amount_add {x y : Float32} {q r : Rat} (hx : amountOf? x = some q)
    (hy : amountOf? y = some r) (hq : q ≠ 0) (hr : r ≠ 0) {k : Nat} {f : Int} (hk : k < 2 ^ 24)
    (hf : -149 ≤ f) (hsum : q + r = k * 2 ^ f) (hsmall : q + r ≤ 255) :
    amountOf? (x + y) = some (q + r) := by
  obtain ⟨sign, m, e, hx', rfl⟩ := exists_hasAmount hx
  obtain ⟨sign', m', e', hy', rfl⟩ := exists_hasAmount hy
  have hzero : m ≠ 0 := fun h => hq (by rw [h, Nat.cast_zero, zero_mul])
  have hzero' : m' ≠ 0 := fun h => hr (by rw [h, Nat.cast_zero, zero_mul])
  have hadd : x + y = .ofModel (.pack (UnpackedFloat.add .binary32 x.toModel.unpack
    y.toModel.unpack)) := rfl
  obtain ⟨n, g, hparts, hvalue⟩ :=
    exists_add_eq_normalize e e' (Nat.pos_of_ne_zero hzero) (Nat.pos_of_ne_zero hzero')
  obtain ⟨s, hnearest, hamount⟩ := exists_amount_normalize (hvalue ▸ hsmall)
  rw [← hvalue] at hnearest
  rw [hadd, hx'.unpack_eq, hy'.unpack_eq, ofParts, ofParts, dif_neg hzero, dif_neg hzero',
    hx'.sign_eq hzero, hy'.sign_eq hzero', hparts, hamount, hnearest.eq_of_eq_mul hk hf hsum]

/-- A whole number that a byte could hold is an amount. -/
theorem amount_natCast {n : Nat} (hn : n ≤ 255) :
    amountOf? (UInt64.ofNat n).toFloat32 = some (n : Rat) := by
  have hvalue : (n : Rat) = n * 2 ^ (0 : Int) := by rw [zpow_zero, mul_one]
  have hsmall : (n : Rat) ≤ 255 := by exact_mod_cast hn
  obtain ⟨s, hnearest, hamount⟩ := exists_amount_normalize (hvalue ▸ hsmall)
  rw [← hvalue] at hnearest
  have hword : (UInt64.ofNat n).toNat = n :=
    UInt64.toNat_ofNat_of_lt' (hn.trans_lt (by decide))
  have hfloat : (UInt64.ofNat n).toFloat32 = .ofModel (.pack (.normalize .binary32 n 0
      .positive)) := by
    conv_rhs => rw [← hword]
    rfl
  have hdigits : n < 2 ^ 24 := hn.trans_lt (by decide)
  rw [hfloat, hamount, hnearest.eq_of_eq_mul hdigits (by decide) hvalue]

/-! ### Integer parts -/

theorem amount_abs {x : Float32} {q : Rat} (h : amountOf? x = some q) :
    amountOf? x.abs = some q := by
  obtain ⟨sign, m, e, hx, rfl⟩ := exists_hasAmount h
  have habs : x.abs = .ofModel (.pack (ofParts .positive m e)) := by
    have hunpacked : x.abs = .ofModel (.pack x.toModel.unpack.abs) := rfl
    rw [hunpacked, hx.unpack_eq, ofParts, ofParts]
    split <;> rfl
  rw [habs]
  exact (hasAmount_pack hx.toIsStorable fun _ => rfl).amountOf?_eq

/-- The integer part of an amount, where it is not held down. -/
private theorem toInt_of_amount {x : Float32} {q : Rat} (h : amountOf? x = some q) (bound : Int) :
    toInt 0 bound x.toModel.unpack = ⌊q⌋₊ := by
  rw [Int.natCast_floor_eq_floor (amount_nonneg h)]
  rw [amountOf?] at h
  split at h
  next m e hpos hx =>
    rw [hx, ← Option.some.inj h, floor_parts, toInt, roundToInt_eq]
    rfl
  next sign hx =>
    rw [hx, ← Option.some.inj h, Int.floor_zero]
    rfl
  next => cases h

/-- **The integer part** of an amount that fits a word. -/
theorem toNat_toUInt64_of_amount {x : Float32} {q : Rat} (h : amountOf? x = some q)
    (hlt : q < 2 ^ 64) : x.toUInt64.toNat = ⌊q⌋₊ := by
  have hword : ⌊q⌋₊ < 2 ^ 64 := by
    rw [Nat.floor_lt (amount_nonneg h)]
    exact_mod_cast hlt
  change (UInt64.ofNatClamp (toInt 0 (UInt64.size - 1) x.toModel.unpack).toNat).toNat = _
  rw [toInt_of_amount h, Int.toNat_natCast, UInt64.toNat_ofNatClamp_of_lt hword]

/-- The integer part of an amount that fits a byte. -/
theorem toNat_toUInt8_of_amount {x : Float32} {q : Rat} (h : amountOf? x = some q)
    (hlt : q < 2 ^ 8) : x.toUInt8.toNat = ⌊q⌋₊ := by
  have hbyte : ⌊q⌋₊ < 2 ^ 8 := by
    rw [Nat.floor_lt (amount_nonneg h)]
    exact_mod_cast hlt
  change (UInt8.ofNatClamp (toInt 0 (UInt8.size - 1) x.toModel.unpack).toNat).toNat = _
  rw [toInt_of_amount h, Int.toNat_natCast, UInt8.toNat_ofNatClamp_of_lt hbyte]

/-- What is behind the point needs no more digits than the whole number. -/
theorem exists_fraction {x : Float32} {q : Rat} (h : amountOf? x = some q) (hsmall : q ≤ 255) :
    ∃ (k : Nat) (f : Int), k < 2 ^ 24 ∧ -149 ≤ f ∧ q - ⌊q⌋₊ = k * 2 ^ f := by
  obtain ⟨sign, m, e, hx, rfl⟩ := exists_hasAmount h
  have hexponent := hx.exponent_le hsmall
  obtain ⟨d, rfl⟩ : ∃ d : Nat, e = -d := ⟨(-e).toNat, by omega⟩
  have hpos : (0 : Rat) < 2 ^ d := by positivity
  have hfloor : ⌊(m : Rat) * 2 ^ (-(d : Int))⌋₊ = m / 2 ^ d := by
    have hzero : (-(d : Int)).toNat = 0 := by omega
    rw [← Int.floor_toNat, floor_parts, hzero, Int.neg_neg, Int.toNat_natCast, Int.toNat_natCast,
      Nat.pow_zero, Nat.mul_one]
  refine ⟨m % 2 ^ d, -d, (Nat.mod_le _ _).trans_lt hx.lt, hx.least_le, ?_⟩
  have hsplit : (m : Rat) = 2 ^ d * (m / 2 ^ d : Nat) + (m % 2 ^ d : Nat) := by
    exact_mod_cast (Nat.div_add_mod m (2 ^ d)).symm
  rw [hfloor, zpow_neg, zpow_natCast, ← div_eq_mul_inv, ← div_eq_mul_inv, eq_div_iff hpos.ne',
    sub_mul, div_mul_cancel₀ _ hpos.ne']
  linarith

end SceneCanvas.Scalar
