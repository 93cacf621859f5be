import SceneCanvas.ColorMatrix
import SceneCanvas.Proofs.SingleOrder
import SceneCanvas.Proofs.Straight

/-!
# Colour matrices keep pixels premultiplied

A matrix computes four components, each held between zero and one, multiplies the colours by the new
alpha, and makes bytes of them. None of the operations is exact. But whatever the coefficients are,
a component is a fraction or not a number (`ColorMatrix.Held`). In the second case its byte is zero,
and so is that of every product with it. In the first case the product with another fraction is
rounded to at most that fraction, and a larger fraction has no smaller byte
(`ColorMatrix.fractionByte_le`).

* `ColorMatrix.toNat_fractionByte` says which byte it is: the product with 255 as a single, rounded
  half up.
* `ColorMatrix.apply_premultiplied` is about whole buffers.
-/

namespace SceneCanvas

namespace Scalar

open Float.Model
open Float.Model.UnpackedFloat

/-! ### What is not a number -/

theorem unpack_of_isNaN {x : Float32} (h : x.isNaN = true) : x.toModel.unpack = .notANumber := by
  change x.toModel.unpack.isNaN = true at h
  generalize x.toModel.unpack = u at h ⊢
  cases u with
  | notANumber => rfl
  | infinity | zero | finite => cases h

/-- A product with something that is not a number. -/
theorem unpack_mul_eq_notANumber {x y : Float32}
    (h : x.toModel.unpack = .notANumber ∨ y.toModel.unpack = .notANumber) :
    (x * y).toModel.unpack = .notANumber := by
  have hproduct : (x * y).toModel = .pack (UnpackedFloat.mul .binary32 x.toModel.unpack
    y.toModel.unpack) := rfl
  have hnone : UnpackedFloat.mul .binary32 x.toModel.unpack y.toModel.unpack = .notANumber := by
    obtain h | h := h
    · rw [h]
      cases y.toModel.unpack <;> rfl
    · rw [h]
      cases x.toModel.unpack <;> rfl
  rw [hproduct, hnone]
  rfl

/-! ### Rounding to an integer -/

/-- A negative single is less than every amount. -/
theorem neg_half_lt_of_amount {x : Float32} {q : Rat} (h : amountOf? x = some q) : -0.5 < x := by
  obtain ⟨hm, hhalf⟩ : ∃ hm, (-0.5 : Float32).toModel.unpack
      = .finite .negative 8388608 (-24) hm := ⟨_, rfl⟩
  rw [single_lt_iff, hhalf]
  rw [amountOf?] at h
  split at h
  next hx => rw [hx]; rfl
  next hx => rw [hx]; rfl
  next => cases h

/-- The singles that rounding may take for an integer. There are two zeros. -/
private def wholes (n : Nat) : List Float32 :=
  if n = 0 then [0.0, -0.0] else [(UInt64.ofNat n).toFloat32]

private theorem amount_of_mem_wholes {n : Nat} (hn : n < 256) {whole : Float32}
    (h : whole ∈ wholes n) : amountOf? whole = some (n : Rat) := by
  rw [wholes] at h
  split at h
  next hzero =>
    obtain rfl | rfl := List.mem_pair.mp h <;> rw [hzero] <;> rfl
  next => rw [List.mem_singleton.mp h, amount_natCast (Nat.le_of_lt_succ hn)]

/-- A positive single has the amount that its parts make up. -/
private theorem amount_of_unpack {x : Float32} {m : Nat} {e : Int}
    (h : ∃ hpos, x.toModel.unpack = .finite .positive m e hpos) :
    amountOf? x = some ((m : Rat) * 2 ^ e) := by
  obtain ⟨hpos, hx⟩ := h
  rw [amountOf?, hx]

theorem amount_zero : amountOf? 0.0 = some 0 := rfl

theorem amount_one : amountOf? 1.0 = some 1 := by
  rw [amount_of_unpack (m := 8388608) (e := -23) ⟨_, rfl⟩]
  norm_num

theorem amount_half : amountOf? 0.5 = some (1 / 2) := by
  rw [amount_of_unpack (m := 8388608) (e := -24) ⟨_, rfl⟩]
  norm_num

theorem amount_255 : amountOf? 255.0 = some 255 := by
  rw [amount_of_unpack (m := 16711680) (e := -16) ⟨_, rfl⟩]
  norm_num

/-- **Rounding an amount** of at most 255 takes the integer below it, or the next one. -/
private theorem exists_round_eq_ite {x : Float32} {q : Rat} (h : amountOf? x = some q)
    (hsmall : q ≤ 255) :
    ∃ whole ∈ wholes ⌊q⌋₊,
      Scalar.round x = if q - ⌊q⌋₊ < 1 / 2 then whole else whole + 1.0 := by
  obtain ⟨whole, hwhole, hround⟩ : ∃ whole, whole = (if x.abs < 1.0 then x * 0.0
      else if x.abs < 8388608.0 then
        if x < 0.0 then -x.abs.toUInt64.toFloat32 else x.abs.toUInt64.toFloat32
      else x) ∧ Scalar.round x = if x - whole < 0.5 then
        if -0.5 < x - whole then whole else whole - 1.0 else whole + 1.0 := ⟨_, rfl, rfl⟩
  have habs := amount_abs h
  have hnonneg := amount_nonneg h
  have hlarge : amountOf? 8388608.0 = some 8388608 := by
    rw [amount_of_unpack (m := 8388608) (e := 0) ⟨_, rfl⟩]
    norm_num
  have hmem : whole ∈ wholes ⌊q⌋₊ := by
    by_cases hone : q < 1
    · rw [if_pos ((lt_iff_of_amount habs amount_one).mpr hone)] at hwhole
      rw [Nat.floor_eq_zero.mpr hone, wholes, if_pos rfl, hwhole]
      obtain hzero | hzero := mul_zero_of_isFinite (isFinite_of_amount h)
      · exact List.mem_cons.mpr (.inl hzero)
      · exact List.mem_cons_of_mem _ (List.mem_singleton.mpr hzero)
    · rw [if_neg (mt (lt_iff_of_amount habs amount_one).mp hone),
        if_pos ((lt_iff_of_amount habs hlarge).mpr (by linarith)),
        if_neg (mt (lt_iff_of_amount h amount_zero).mp hnonneg.not_gt)] at hwhole
      have hne : ⌊q⌋₊ ≠ 0 := mt Nat.floor_eq_zero.mp hone
      rw [wholes, if_neg hne, List.mem_singleton, hwhole,
        ← toNat_toUInt64_of_amount habs (by linarith), UInt64.ofNat_toNat]
  refine ⟨whole, hmem, ?_⟩
  have hfloor : ⌊q⌋₊ < 256 := by
    rw [Nat.floor_lt hnonneg]
    exact hsmall.trans_lt (by norm_num)
  obtain ⟨k, f, hk, hf, hfraction⟩ := exists_fraction h hsmall
  have hdifference : amountOf? (x - whole) = some (q - ⌊q⌋₊) :=
    amount_sub h (amount_of_mem_wholes hfloor hmem) hk hf hfraction
      (by linarith [(Nat.cast_nonneg ⌊q⌋₊ : (0 : Rat) ≤ _)])
  rw [hround, if_pos (neg_half_lt_of_amount hdifference)]
  exact if_congr (lt_iff_of_amount hdifference amount_half) rfl rfl

end Scalar

namespace ColorMatrix

open Scalar

/-! ### Fractions as bytes -/

/-- What is not a number has the byte zero. -/
theorem fractionByte_of_notANumber {v : Float32} (h : v.toModel.unpack = .notANumber) :
    fractionByte v = 0 := by
  have hproduct : v * 255.0 = .ofModel (.pack .notANumber) := by
    have hmul : v * 255.0 = .ofModel (.pack (Float.Model.UnpackedFloat.mul .binary32
      v.toModel.unpack (255.0 : Float32).toModel.unpack)) := rfl
    rw [hmul, h]
    rfl
  rw [fractionByte, hproduct]
  rfl

/-- The byte of an integer that a byte can hold. -/
private theorem byte_of_amount {n : Nat} (hn : n < 256) {x : Float32}
    (h : amountOf? x = some (n : Rat)) : (Scalar.toByte (clamp 0.0 255.0 x)).toNat = n := by
  have hlow : Scalar.lt x 0.0 = false := decide_eq_false fun hlt =>
    absurd ((lt_iff_of_amount h amount_zero).mp hlt) n.cast_nonneg.not_gt
  have hhigh : Scalar.lt 255.0 x = false := decide_eq_false fun hlt => by
    have hmax : (255 : Rat) < n := (lt_iff_of_amount amount_255 h).mp hlt
    have hmax' : 255 < n := by exact_mod_cast hmax
    omega
  have hbyte : (n : Rat) < 2 ^ 8 := by exact_mod_cast hn
  rw [clamp, hlow, if_neg Bool.false_ne_true, hhigh, if_neg Bool.false_ne_true]
  exact (toNat_toUInt8_of_amount h hbyte).trans (Nat.floor_natCast n)

/-- The bytes that integers and their successors are held to. -/
private theorem byte_of_mem_wholes {n : Nat} (hn : n < 256) {whole : Float32}
    (h : whole ∈ wholes n) : (Scalar.toByte (clamp 0.0 255.0 whole)).toNat = n ∧
      (Scalar.toByte (clamp 0.0 255.0 (whole + 1.0))).toNat = min 255 (n + 1) := by
  have hamount := amount_of_mem_wholes hn h
  refine ⟨byte_of_amount hn hamount, ?_⟩
  obtain rfl | rfl | ⟨hpos, hlt⟩ : n = 0 ∨ n = 255 ∨ (0 < n ∧ n < 255) := by omega
  · obtain rfl | rfl := List.mem_pair.mp h <;> rfl
  · rw [List.mem_singleton.mp h]
    rfl
  · have hnext : ((n : Rat) + 1) = (n + 1 : Nat) := by push_cast; rfl
    have hsmall : (n : Rat) + 1 ≤ 255 := by exact_mod_cast hlt
    rw [Nat.min_eq_right (by omega)]
    refine byte_of_amount (by omega) (hnext ▸ amount_add hamount amount_one
      (Nat.cast_ne_zero.mpr hpos.ne') one_ne_zero (k := n + 1) (f := 0) ?_ (by decide) ?_ hsmall)
    · exact (by omega : n + 1 < 2 ^ 24)
    · rw [hnext, zpow_zero, mul_one]

/-- **The byte of a fraction.** -/
theorem toNat_fractionByte {v : Float32} {s : Rat} (h : amountOf? (v * 255.0) = some s)
    (hsmall : s ≤ 255) : (fractionByte v).toNat = ⌊s + 1 / 2⌋₊ := by
  have hnonneg := amount_nonneg h
  have hlow := Nat.floor_le hnonneg
  have hhigh := Nat.lt_floor_add_one s
  obtain ⟨whole, hmem, hround⟩ := exists_round_eq_ite h hsmall
  have hfloor : ⌊s⌋₊ < 256 := by
    rw [Nat.floor_lt hnonneg]
    exact hsmall.trans_lt (by norm_num)
  obtain ⟨hstay, hnext⟩ := byte_of_mem_wholes hfloor hmem
  rw [fractionByte, hround]
  split
  next hlt =>
    rw [hstay, eq_comm, Nat.floor_eq_iff (by positivity)]
    constructor <;> linarith
  next hge =>
    -- there is no fraction behind 255
    have hbelow : ⌊s⌋₊ < 255 := by
      by_contra hmax
      have hmax' : (255 : Rat) ≤ ⌊s⌋₊ := by exact_mod_cast Nat.not_lt.mp hmax
      linarith
    rw [hnext, Nat.min_eq_right hbelow, eq_comm, Nat.floor_eq_iff (by positivity)]
    push_cast
    constructor <;> linarith

/-- **A larger fraction** has no smaller byte. -/
theorem fractionByte_le {x y : Float32} {q r : Rat} (hx : amountOf? x = some q)
    (hy : amountOf? y = some r) (hle : q ≤ r) (hone : r ≤ 1) : fractionByte x ≤ fractionByte y := by
  obtain ⟨s, hs, hamount⟩ := exists_amount_mul hx amount_255 (by linarith)
  obtain ⟨t, ht, hamount'⟩ := exists_amount_mul hy amount_255 (by linarith)
  have hst : s ≤ t := hs.mono ht (by linarith)
  have htop : t ≤ 255 := ht.mono nearest_255 (by linarith)
  rw [UInt8.le_iff_toNat_le, toNat_fractionByte hamount (hst.trans htop),
    toNat_fractionByte hamount' htop]
  exact Nat.floor_le_floor (by linarith)

/-! ### Components -/

/-- A single that is between zero and one, or not a number. -/
def Held (x : Float32) : Prop :=
  x.toModel.unpack = .notANumber ∨ ∃ q, amountOf? x = some q ∧ q ≤ 1

/-- Holding a single between zero and one. -/
theorem held_clamp (x : Float32) : Held (clamp 0.0 1.0 x) := by
  have hclamp : clamp 0.0 1.0 x = if x < 0.0 then 0.0 else if 1.0 < x then 1.0 else x := by
    simp only [clamp, Scalar.lt, decide_eq_true_eq]
  rw [hclamp]
  split
  next => exact .inr ⟨0, amount_zero, zero_le_one⟩
  next hlow =>
    split
    next => exact .inr ⟨1, amount_one, le_rfl⟩
    next hhigh =>
      cases hnumber : x.isNaN with
      | true => exact .inl (unpack_of_isNaN hnumber)
      | false => exact .inr (exists_amount_of_not_lt hnumber hlow hhigh amount_one)

/-- **A product of components** has no larger byte than the second of them. -/
theorem fractionByte_mul_le {x y : Float32} (hx : Held x) (hy : Held y) :
    fractionByte (x * y) ≤ fractionByte y := by
  have hnone (h : x.toModel.unpack = .notANumber ∨ y.toModel.unpack = .notANumber) :
      fractionByte (x * y) ≤ fractionByte y := by
    rw [fractionByte_of_notANumber (unpack_mul_eq_notANumber h)]
    exact UInt8.zero_le
  obtain hx | ⟨q, hq, hqone⟩ := hx
  · exact hnone (.inl hx)
  obtain hy | ⟨r, hr, hrone⟩ := hy
  · exact hnone (.inr hy)
  have hpos := amount_nonneg hr
  have hproduct : q * r ≤ r := mul_le_of_le_one_left hpos hqone
  obtain ⟨s, hs, hamount⟩ := exists_amount_mul hq hr (by linarith)
  -- the second one is a single, so nothing below it is rounded beyond it
  obtain ⟨sign, m, e, hparts, rfl⟩ := exists_hasAmount hr
  exact fractionByte_le hamount hr (hs.mono hparts.nearest_self hproduct) hrone

theorem premultiplied_applyPixel (m : ColorMatrix Float32) (p : Pixel) :
    (m.applyPixel p).Premultiplied :=
  ⟨fractionByte_mul_le (held_clamp _) (held_clamp _),
    fractionByte_mul_le (held_clamp _) (held_clamp _),
    fractionByte_mul_le (held_clamp _) (held_clamp _)⟩

/-- **Colour matrices keep pixels premultiplied**, whatever the coefficients are and whatever the
bytes are that they are applied to. Every complete pixel has a new value that depends on its own
bytes alone, and the bytes behind the last complete pixel stay as they are. -/
theorem apply_premultiplied (m : ColorMatrix Float32) (b : Buffer) :
    (m.apply b).size = b.size ∧ (m.apply b).Premultiplied ∧
      (∀ i, 4 * b.pixelCount ≤ i → (m.apply b).byteAt i = b.byteAt i) ∧
      ∀ p < b.pixelCount, (m.apply b).pixelAt p = m.applyPixel (b.pixelAt p) := by
  have hsize : (m.apply b).size = b.size := Buffer.size_mapPixels ..
  have hpixel (p : Nat) (hp : p < b.pixelCount) :
      (m.apply b).pixelAt p = m.applyPixel (b.pixelAt p) := Buffer.pixelAt_mapPixels _ _ hp
  refine ⟨hsize, fun p hp => ?_, fun i hi => ?_, hpixel⟩
  · rw [hpixel p (Buffer.pixelCount_congr hsize ▸ hp)]
    exact premultiplied_applyPixel m _
  · rw [apply, Buffer.mapPixels_eq_updateSpan, Buffer.byteAt_updateSpan_of_le _ _ _ hi]

/-- Coefficients that are infinite, and a row whose sum is not a number: what is no number becomes
nothing, and what exceeds all bounds becomes as large as alpha lets it be. -/
theorem apply_premultiplied_boundless :
    let m : ColorMatrix Float32 := {
      red := .mix (1.0 / 0.0) (-1.0 / 0.0) 0.0
      green := .mix (1.0 / 0.0) 0.0 0.0
      blue := .mix 0.0 (-1.0 / 0.0) 0.0
      alpha := .keepAlpha }
    let b : Buffer := #[200, 10, 0, 100, 7]
    (m.apply b).pixelAt 0 = ⟨0, 100, 0, 100⟩ ∧ (m.apply b).Premultiplied ∧
      (m.apply b).byteAt 4 = 7 := by
  intro m b
  obtain ⟨-, hpremultiplied, hrest, hpixel⟩ := apply_premultiplied m b
  refine ⟨(hpixel 0 (by decide)).trans ?_, hpremultiplied, hrest 4 (by decide)⟩
  decide +kernel

end ColorMatrix

end SceneCanvas
