import Mathlib.Algebra.Order.Round
import Mathlib.Data.Rat.Floor
import SceneCanvas.Proofs.SourceOver

/-!
# How accurate laying over is

Bytes are fractions of 255, and laying one pixel over another is arithmetic on fractions
(`Pixel.exactOver`). The operations compute it with three products of bytes, and each of them is
rounded: the scaled source, the scaled alpha, and what shows through of the destination. What
rounding adds to one product is its `residue`, less than half a unit because the divisor is odd.

* `Pixel.plainOver_eq_exactOver_add`: **the error is made of three residues**, that of the scaled
  alpha weighted by the destination. Hence it is below one and a half.
* At full opacity two of the three vanish, and the result is the exact value, correctly rounded.
* `Buffer.laying_over_is_accurate` says so of every way of laying over, the exits for a source
  without coverage included.
-/

namespace SceneCanvas

/-! ### What rounding adds to a product -/

/-- What rounding adds to a product of bytes. -/
def residue (x y : UInt8) : ℚ := (mul255 x y).toNat - x.toNat * y.toNat / 255

/-- There are no ties, so the residue stays clear of one half. -/
theorem abs_residue_le (x y : UInt8) : |residue x y| ≤ 127 / 255 := by
  rw [residue, toNat_mul255, ← Nat.cast_mul]
  generalize x.toNat * y.toNat = n
  have hlow : n ≤ 255 * ((n + 127) / 255) + 127 := by omega
  have hhigh : 255 * ((n + 127) / 255) ≤ n + 127 := by omega
  have hlow : (n : ℚ) ≤ 255 * ((n + 127) / 255 : ℕ) + 127 := by exact_mod_cast hlow
  have hhigh : (255 : ℚ) * ((n + 127) / 255 : ℕ) ≤ n + 127 := by exact_mod_cast hhigh
  rw [abs_le]
  constructor <;> linarith

@[simp] theorem residue_full (x : UInt8) : residue x 255 = 0 := by
  rw [residue, mul255_full, show (255 : UInt8).toNat = 255 from rfl]
  push_cast
  ring

namespace Pixel

/-! ### The exact value -/

/-- One channel of `s`, scaled by `opacity`, over `d`, with nothing rounded. -/
def exactOver (opacity : UInt8) (s d : Pixel) (c : Channel) : ℚ :=
  (s.channel c).toNat * opacity.toNat / 255
    + (d.channel c).toNat * (1 - s.a.toNat * opacity.toNat / 255 / 255)

/-- **Three residues.** The plain formula is the exact value and what rounding adds to each product.
The residue of the scaled alpha counts by as much as there is of the destination. -/
theorem plainOver_eq_exactOver_add (opacity : UInt8) (s d : Pixel) (c : Channel) :
    (plainOver opacity s d c : ℚ) = exactOver opacity s d c
      + (residue (s.channel c) opacity + residue (d.channel c) (255 - mul255 s.a opacity)
        - (d.channel c).toNat / 255 * residue s.a opacity) := by
  have hrest : ((255 - mul255 s.a opacity).toNat : ℚ) = 255 - (mul255 s.a opacity).toNat := by
    rw [toNat_rest, Nat.cast_sub (Nat.le_of_lt_succ (mul255 s.a opacity).toNat_lt)]
    rfl
  rw [plainOver, exactOver, residue, residue, residue, hrest]
  push_cast
  ring

/-- The formula is less than one and a half from the exact value. -/
theorem abs_plainOver_sub_exactOver_lt (opacity : UInt8) (s d : Pixel) (c : Channel) :
    |(plainOver opacity s d c : ℚ) - exactOver opacity s d c| < 3 / 2 := by
  have hcolor := abs_residue_le (s.channel c) opacity
  have hthrough := abs_residue_le (d.channel c) (255 - mul255 s.a opacity)
  have hcover : |((d.channel c).toNat : ℚ) / 255 * residue s.a opacity| ≤ 127 / 255 := by
    have hbyte : ((d.channel c).toNat : ℚ) ≤ 255 := by
      exact_mod_cast Nat.le_of_lt_succ (d.channel c).toNat_lt
    have hshare : |((d.channel c).toNat : ℚ) / 255| ≤ 1 := by
      rw [abs_of_nonneg (by positivity)]
      linarith
    calc |((d.channel c).toNat : ℚ) / 255 * residue s.a opacity|
        = |((d.channel c).toNat : ℚ) / 255| * |residue s.a opacity| := abs_mul _ _
      _ ≤ 1 * |residue s.a opacity| := mul_le_mul_of_nonneg_right hshare (abs_nonneg _)
      _ ≤ 127 / 255 := by rw [one_mul]; exact abs_residue_le _ _
  rw [plainOver_eq_exactOver_add, add_sub_cancel_left]
  calc |residue (s.channel c) opacity + residue (d.channel c) (255 - mul255 s.a opacity)
          - (d.channel c).toNat / 255 * residue s.a opacity|
      ≤ |residue (s.channel c) opacity| + |residue (d.channel c) (255 - mul255 s.a opacity)|
          + |((d.channel c).toNat : ℚ) / 255 * residue s.a opacity| :=
        (abs_sub _ _).trans (add_le_add_left (abs_add_le _ _) _)
    _ ≤ 127 / 255 + 127 / 255 + 127 / 255 := add_le_add (add_le_add hcolor hthrough) hcover
    _ < 3 / 2 := by norm_num

/-- At full opacity only what shows through of the destination is rounded. -/
theorem abs_plainOver_full_sub_exactOver_lt (s d : Pixel) (c : Channel) :
    |(plainOver 255 s d c : ℚ) - exactOver 255 s d c| < 1 / 2 := by
  rw [plainOver_eq_exactOver_add, add_sub_cancel_left, residue_full, residue_full, mul_zero,
    sub_zero, zero_add]
  exact (abs_residue_le _ _).trans_lt (by norm_num)

/-! ### Accurate results -/

/-- Every channel of `out` is less than `bound` from the exact value of `s` over `d`. -/
def IsWithin (bound : ℚ) (opacity : UInt8) (s d out : Pixel) : Prop :=
  ∀ c, |((out.channel c).toNat : ℚ) - exactOver opacity s d c| < bound

/-- The pixel `out` is `s` over `d` as accurately as three roundings allow, and as one rounding
allows at full opacity. -/
structure IsAccurateOver (opacity : UInt8) (s d out : Pixel) : Prop where
  within : IsWithin (3 / 2) opacity s d out
  within_full : opacity = 255 → IsWithin (1 / 2) opacity s d out
  /-- At full opacity every channel is the exact value, correctly rounded. -/
  rounded : opacity = 255 → ∀ c, ((out.channel c).toNat : ℤ) = round (exactOver opacity s d c)
  /-- At full opacity an opaque source takes the place of the destination. -/
  replaced : opacity = 255 → s.a = 255 → out = s
  /-- A transparent source leaves the destination. -/
  kept : s.a = 0 → out = d

/-- **One pixel over another**, whether it is computed or passed over. -/
theorem isAccurateOver_sourceOver {s : Pixel} (hs : s.Premultiplied) (opacity : UInt8)
    (d : Pixel) : IsAccurateOver opacity s d (sourceOver opacity s d) := by
  have hfull : opacity = 255 → IsWithin (1 / 2) opacity s d (sourceOver opacity s d) := by
    rintro rfl c
    rw [toNat_channel_sourceOver hs]
    exact abs_plainOver_full_sub_exactOver_lt s d c
  constructor
  case within =>
    intro c
    rw [toNat_channel_sourceOver hs]
    exact abs_plainOver_sub_exactOver_lt opacity s d c
  case within_full => exact hfull
  case rounded =>
    intro hopacity c
    obtain ⟨hlow, hhigh⟩ := abs_lt.mp (hfull hopacity c)
    refine (round_eq_iff.mpr ⟨?_, ?_⟩).symm
    · push_cast
      linarith
    · push_cast
      linarith
  case replaced =>
    rintro rfl hopaque
    refine ext_channel fun c => UInt8.toNat_inj.mp ?_
    rw [toNat_channel_sourceOver hs, plainOver, hopaque, mul255_full, mul255_full,
      show (255 : UInt8) - 255 = 0 from rfl, mul255_zero]
    rfl
  case kept =>
    intro hclear
    rw [sourceOver, hclear, mul255_comm, mul255_zero, if_pos rfl]

/-- One and a half is nearly reached: the scaled colour is rounded down, the scaled alpha is rounded
up and leaves too small a rest, and the product with that rest is rounded down as well. -/
example : |((sourceOver 127 ⟨1, 0, 0, 254⟩ ⟨254, 0, 0, 255⟩).r.toNat : ℚ)
    - exactOver 127 ⟨1, 0, 0, 254⟩ ⟨254, 0, 0, 255⟩ .red| > 149 / 100 := by
  decide +kernel

end Pixel

namespace Buffer

/-- **Laying over is accurate.** Premultiplied pixels on any others are less than one and a half
from the exact value in every channel, at every opacity, also where a scaled alpha of zero has them
passed over. At full opacity, and so for a colour over a buffer and for a buffer placed on another,
the result is the exact value, correctly rounded. An opaque source then takes the place of the
destination, and a transparent one leaves it at any opacity. -/
theorem laying_over_is_accurate :
    (∀ dst src : Buffer, src.size = dst.size → dst.size % 4 = 0 → src.Premultiplied →
      (∀ opacity : Float32, dst.sourceOver src opacity
        = .ok (dst.overSpan 0 src 0 dst.pixelCount (Pixel.fractionByte opacity))) ∧
      ∀ opacity : UInt8, ∀ p < dst.pixelCount, Pixel.IsAccurateOver opacity (src.pixelAt p)
        (dst.pixelAt p) ((dst.overSpan 0 src 0 dst.pixelCount opacity).pixelAt p)) ∧
    (∀ (dst : Buffer) (color : Pixel), color.Premultiplied → ∀ p < dst.pixelCount,
      Pixel.IsAccurateOver 255 color (dst.pixelAt p) ((dst.fillOver color).pixelAt p)) ∧
    (∀ (dst src : Buffer) (dw dh sw sh : Nat) (x y : Int), dst.size = 4 * (dw * dh) →
      src.size = 4 * (sw * sh) → src.Premultiplied →
      ∀ X < dw, ∀ Y < dh, ∀ sx < sw, ∀ sy < sh, (X : Int) - x = sx → (Y : Int) - y = sy →
        Pixel.IsAccurateOver 255 (src.pixelAt (sy * sw + sx)) (dst.pixelAt (Y * dw + X))
          ((dst.overAt dw dh src sw sh x y).pixelAt (Y * dw + X))) := by
  refine ⟨?whole, ?fill, ?placed⟩
  case whole =>
    intro dst src hsize hdst hpre
    refine ⟨fun opacity => sourceOver_eq_ok_iff.mpr ⟨⟨hsize.symm, hdst⟩, rfl⟩,
      fun opacity p hp => ?_⟩
    rw [pixelAt_overSpan _ _ _ _ _ _ hp, if_pos (by omega), Nat.zero_add, Nat.sub_zero]
    exact Pixel.isAccurateOver_sourceOver (hpre p (pixelCount_congr hsize ▸ hp)) _ _
  case fill =>
    intro dst color hcolor p hp
    rw [pixelAt_fillOver _ _ hp]
    exact Pixel.isAccurateOver_sourceOver hcolor _ _
  case placed =>
    intro dst src dw dh sw sh x y hdst hsrc hpre X hX Y hY sx hsx sy hsy hx hy
    have htarget := place_lt_pixelCount (Nat.le_of_eq hdst.symm) hX hY
    have hsource := place_lt_pixelCount (Nat.le_of_eq hsrc.symm) hsx hsy
    rw [pixelAt_overAt_of_eq src hX hY htarget hsx hsy hx hy]
    exact Pixel.isAccurateOver_sourceOver (hpre _ hsource) _ _

/-- A pixel so faint that it is passed over, a translucent colour, and a row of two pixels of which
one hangs over the left edge. -/
theorem laying_over_is_accurate_faint :
    (Buffer.sourceOver #[10, 20, 30, 255] #[1, 0, 1, 1] 0.25 = .ok #[10, 20, 30, 255] ∧
      Pixel.IsAccurateOver 64 ⟨1, 0, 1, 1⟩ ⟨10, 20, 30, 255⟩ ⟨10, 20, 30, 255⟩) ∧
    Pixel.IsAccurateOver 255 ⟨9, 9, 9, 20⟩ ⟨10, 20, 30, 255⟩ ⟨18, 27, 37, 255⟩ ∧
    Pixel.IsAccurateOver 255 ⟨128, 0, 64, 128⟩ ⟨10, 20, 30, 255⟩
      ((overAt #[10, 20, 30, 255] 1 1 #[0, 0, 0, 0, 128, 0, 64, 128] 2 1 (-1) 0).pixelAt 0) := by
  obtain ⟨hwhole, hfill, hplaced⟩ := laying_over_is_accurate
  obtain ⟨hresult, haccurate⟩ := hwhole #[10, 20, 30, 255] #[1, 0, 1, 1] rfl rfl (by decide)
  exact ⟨⟨(hresult 0.25).trans (by decide), haccurate 64 0 (by decide)⟩,
    hfill #[10, 20, 30, 255] ⟨9, 9, 9, 20⟩ (by decide) 0 (by decide),
    hplaced #[10, 20, 30, 255] #[0, 0, 0, 0, 128, 0, 64, 128] 1 1 2 1 (-1) 0 rfl rfl (by decide)
      0 (by decide) 0 (by decide) 1 (by decide) 0 (by decide) rfl rfl⟩

end Buffer

end SceneCanvas
