import SceneCanvas.Blur.Gaussian
import SceneCanvas.Proofs.ExactDouble
import SceneCanvas.Proofs.MovingAverage

/-!
# The size of boxes

The box for a deviation is to be about 1.88 times as wide, which takes four operations on doubles
and an integer part. How far each of them is off does not matter here. Rounding does not exceed a
natural number that was not exceeded (`Scalar.Rounded.exists_le`), and there is room enough below
twice the deviation and one (`BoxPass.sizeFor_le_of_valueOf`), which is as much as three boxes may
have if they are not to reach farther than three times the deviation
(`BoxPass.leftReach_triple_le`).
-/

namespace SceneCanvas

namespace Scalar

variable {x : Float} {q : Rat} (hq : 0 ≤ q) (hlt : q < 2 ^ 52)

include hq hlt

/-- The integer part of a number, as a word. -/
private theorem toNat_toUInt64 (hx : valueOf? x = some q) : x.toUInt64.toNat = ⌊q⌋₊ := by
  have hfloor : ⌊q⌋₊ < 2 ^ 52 := by
    rw [Nat.floor_lt hq]
    exact_mod_cast hlt
  change (UInt64.ofNatClamp (x.toModel.unpack.toInt 0 (UInt64.size - 1)).toNat).toNat = _
  rw [toInt_of_valueOf hx, truncate_of_nonneg hq, Int.floor_toNat,
    UInt64.toNat_ofNatClamp_of_lt (hfloor.trans (by decide))]

/-- **The greatest integer below** a number. -/
theorem valueOf?_floor (hx : valueOf? x = some q) : valueOf? (floor x) = some (⌊q⌋₊ : Rat) := by
  obtain ⟨whole, hwhole, hfloor⟩ : ∃ whole, whole = (if x.abs < 1.0 then x * 0.0
      else if x.abs < 4503599627370496.0 then
        if x < 0.0 then -x.abs.toUInt64.toFloat else x.abs.toUInt64.toFloat
      else x) ∧ floor x = if x < whole then whole - 1.0 else whole := ⟨_, rfl, rfl⟩
  have habs := valueOf?_abs hx
  rw [abs_of_nonneg hq] at habs
  have hlarge : valueOf? 4503599627370496.0 = some (2 ^ 52) := by
    exact_mod_cast valueOf?_point_zero (n := 2 ^ 52) (by decide)
  have hvalue : valueOf? whole = some (⌊q⌋₊ : Rat) := by
    rw [hwhole]
    split
    next hone =>
      rw [Nat.floor_eq_zero.mpr ((lt_iff habs valueOf?_one).mp hone), Nat.cast_zero, ← mul_zero q]
      exact valueOf?_mul hx valueOf?_zero (by rw [mul_zero]; exact representable_zero)
    next =>
      rw [if_pos ((lt_iff habs hlarge).mpr hlt),
        if_neg fun hneg => hq.not_gt ((lt_iff hx valueOf?_zero).mp hneg)]
      have hfits : ⌊q⌋₊ < 2 ^ 53 := by
        rw [Nat.floor_lt hq]
        exact hlt.trans (by norm_num)
      have hrounds := roundsTo_ofUInt64 x.abs.toUInt64
      rw [toNat_toUInt64 hq hlt habs] at hrounds
      exact Rounded.valueOf? ⟨_, _, Nat.cast_nonneg _, one_mul _, hrounds⟩
        (representable_natCast hfits)
  have hnot : ¬ x < whole := fun habove =>
    (Nat.floor_le hq).not_gt ((lt_iff hx hvalue).mp habove)
  rwa [hfloor, if_neg hnot]

end Scalar

namespace BoxPass

open Scalar (valueOf?)

/-- The root in the formula is about 2.5. -/
private theorem exists_valueOf?_sqrt :
    ∃ c, valueOf? (Float.sqrt (2.0 * pi)) = some c ∧ 0 ≤ c ∧ c ≤ 8 / 3 := by
  have hroot : (valueOf? (Float.sqrt (2.0 * pi))).any (fun c => decide (0 ≤ c ∧ c ≤ 8 / 3))
      = true := by decide +kernel
  cases hc : valueOf? (Float.sqrt (2.0 * pi)) with
  | none =>
    rw [hc] at hroot
    cases hroot
  | some c =>
    rw [hc] at hroot
    exact ⟨c, rfl, of_decide_eq_true hroot⟩

/-- **The size of a box** is at most twice the deviation and one. -/
theorem sizeFor_le_of_valueOf {sigma : Float32} {a : Rat}
    (hsigma : valueOf? (Scalar.widen sigma) = some a) (ha : 0 ≤ a) {n : Nat} (hn : n < 2 ^ 48)
    (hle : a ≤ n) : sizeFor sigma ≤ 2 * n + 1 := by
  obtain ⟨root, hroot, hrootPos, hrootLe⟩ := exists_valueOf?_sqrt
  have hthree : valueOf? 3.0 = some 3 := by
    exact_mod_cast Scalar.valueOf?_point_zero (n := 3) (by norm_num)
  have hfour : valueOf? 4.0 = some 4 := by
    exact_mod_cast Scalar.valueOf?_point_zero (n := 4) (by norm_num)
  have hhalf : valueOf? 0.5 = some (1 / 2) := by decide +kernel
  obtain ⟨b, hb, hbPos, hbLe⟩ := (Scalar.rounded_mul hsigma hthree).exists_le
    (mul_nonneg ha (by norm_num)) (n := 3 * n) (by omega) (by push_cast; linarith)
  obtain ⟨c, hc, hcPos, hcLe⟩ := (Scalar.rounded_mul hb hroot).exists_le
    (mul_nonneg hbPos hrootPos) (n := 8 * n) (by omega) (by
      calc b * root ≤ (3 * n : Nat) * (8 / 3) :=
            mul_le_mul hbLe hrootLe hrootPos (Nat.cast_nonneg _)
        _ = (8 * n : Nat) := by push_cast; ring)
  obtain ⟨d, hd, hdPos, hdLe⟩ := (Scalar.rounded_div hc hfour (by norm_num)).exists_le
    (div_nonneg hcPos (by norm_num)) (n := 2 * n) (by omega) (by push_cast at hcLe ⊢; linarith)
  obtain ⟨e, he, hePos, heLe⟩ := (Scalar.rounded_add hd hhalf).exists_le
    (add_nonneg hdPos (by norm_num)) (n := 2 * n + 1) (by omega) (by push_cast at hdLe ⊢; linarith)
  have hlt : e < 2 ^ 52 :=
    heLe.trans_lt (by exact_mod_cast (by omega : 2 * n + 1 < 2 ^ 52))
  have hfloor : ⌊e⌋₊ ≤ 2 * n + 1 := Nat.floor_le_of_le heLe
  have htruncate := Scalar.truncate_of_valueOf (Scalar.valueOf?_floor hePos hlt he)
  rw [Scalar.truncate_of_nonneg (Nat.cast_nonneg _), Int.floor_natCast] at htruncate
  rw [sizeFor, htruncate, Int.toNat_natCast]
  exact Nat.max_le.mpr ⟨Nat.le_add_left .., (Nat.min_le_right ..).trans hfloor⟩

/-- Three boxes reach no farther to the left than three times half of the largest. -/
theorem leftReach_triple_le {d n : Nat} (hd : d ≤ 2 * n + 1) : leftReach (triple d) ≤ 3 * n := by
  rw [triple]
  split
  next => simp only [leftReach, List.map_cons, List.map_nil, List.sum_cons, List.sum_nil]; omega
  next => simp only [leftReach, List.map_cons, List.map_nil, List.sum_cons, List.sum_nil]; omega

/-! ### Deviations of a scene -/

/-- The values of the deviations that a scene can name, by evaluating every one of them. -/
private theorem forall_widen : ∀ n < 129,
    valueOf? (Scalar.widen (UInt32.ofNat n).toFloat32) = some (n : Rat) := by
  decide +kernel

theorem sizeFor_le {pixels : UInt32} (hpixels : pixels ≤ 128) :
    sizeFor pixels.toFloat32 ≤ 2 * pixels.toNat + 1 := by
  have hlt : pixels.toNat < 129 := Nat.lt_succ_of_le (UInt32.le_iff_toNat_le.mp hpixels)
  have hvalue := forall_widen pixels.toNat hlt
  rw [UInt32.ofNat_toNat] at hvalue
  exact sizeFor_le_of_valueOf hvalue (Nat.cast_nonneg _) (by omega) le_rfl

end BoxPass

end SceneCanvas
