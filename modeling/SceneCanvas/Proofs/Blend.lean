import SceneCanvas.Blend
import SceneCanvas.Proofs.Buffer
import SceneCanvas.Proofs.Control

/-!
# What blending does to each pixel

Every operation that blends is known by the pixels it leaves. The ones on whole buffers pair equal
places; `Buffer.overAt` pairs the place `(X, Y)` of the destination with `(X - x, Y - y)` of the
source, where there is such a place (`Buffer.pixelAt_overAt_of_lt`, `Buffer.pixelAt_overAt`).

The rows that `Buffer.overAt` cuts out of both buffers are listed by `Buffer.overAtSpans`. They are
computed with signed numbers, and `Buffer.overAtSpans_inBounds` says that none of them leaves its
buffer, wherever the source is placed.
-/

namespace SceneCanvas.Buffer

/-! ### A run of pixels over another -/

theorem overSpan_eq_updateSpan (dst : Buffer) (d : Nat) (src : Buffer) (s n : Nat)
    (opacity : UInt8) :
    dst.overSpan d src s n opacity = if opacity = 0 then dst
      else dst.updateSpan d n fun i => (src.pixelAt (s + i)).sourceOver opacity := rfl

@[simp] theorem size_overSpan (dst : Buffer) (d : Nat) (src : Buffer) (s n : Nat)
    (opacity : UInt8) : (dst.overSpan d src s n opacity).size = dst.size := by
  rw [overSpan_eq_updateSpan]
  split
  next => rfl
  next => rw [size_updateSpan]

@[simp] theorem pixelCount_overSpan (dst : Buffer) (d : Nat) (src : Buffer) (s n : Nat)
    (opacity : UInt8) : (dst.overSpan d src s n opacity).pixelCount = dst.pixelCount :=
  pixelCount_congr (size_overSpan ..)

/-- The early exit at opacity zero does not show: laid over at opacity zero, pixels stay. -/
theorem pixelAt_overSpan (dst : Buffer) (d : Nat) (src : Buffer) (s n : Nat) (opacity : UInt8)
    {p : Nat} (hp : p < dst.pixelCount) :
    (dst.overSpan d src s n opacity).pixelAt p =
      if d ≤ p ∧ p < d + n then (src.pixelAt (s + (p - d))).sourceOver opacity (dst.pixelAt p)
      else dst.pixelAt p := by
  rw [overSpan_eq_updateSpan]
  by_cases hzero : opacity = 0
  · rw [if_pos hzero, hzero]
    split
    next => exact (Pixel.sourceOver_zero _ _).symm
    next => rfl
  · rw [if_neg hzero, pixelAt_updateSpan _ _ _ _ hp]

/-! ### Whole buffers -/

theorem checkSizes_eq_ok_iff {dst src : Nat} (operation : String) :
    checkSizes dst src operation = .ok () ↔ dst = src ∧ dst % 4 = 0 := by
  rw [checkSizes]
  split
  next h => simp only [reduceCtorEq, false_iff]; omega
  next h => simp only [true_iff]; omega

/-- Laying over succeeds on equally long buffers of complete pixels, and only there. -/
theorem sourceOver_eq_ok_iff {dst src out : Buffer} {opacity : Float32} :
    dst.sourceOver src opacity = .ok out ↔ (dst.size = src.size ∧ dst.size % 4 = 0) ∧
      dst.overSpan 0 src 0 dst.pixelCount (Pixel.fractionByte opacity) = out := by
  rw [← checkSizes_eq_ok_iff "over_in_place", sourceOver, bind_eq_ok_iff]
  simp only [pure, Except.pure, Except.ok.injEq, exists_and_right]
  exact ⟨fun ⟨⟨_, hsizes⟩, hout⟩ => ⟨hsizes, hout⟩, fun ⟨hsizes, hout⟩ => ⟨⟨(), hsizes⟩, hout⟩⟩

/-- Adding succeeds on equally long buffers of complete pixels, and only there. -/
theorem add_eq_ok_iff {dst src out : Buffer} {opacity : Float32} :
    dst.add src opacity = .ok out ↔ (dst.size = src.size ∧ dst.size % 4 = 0) ∧
      (if Pixel.fractionByte opacity = 0 then dst else dst.updateBytes dst.size
        fun i v => saturatingAdd v (mul255 (src.byteAt i) (Pixel.fractionByte opacity))) = out := by
  rw [← checkSizes_eq_ok_iff "add_in_place", add, bind_eq_ok_iff]
  constructor
  · rintro ⟨_, hsizes, hout⟩
    refine ⟨hsizes, ?_⟩
    dsimp only at hout
    split at hout
    next hzero => rw [if_pos hzero]; exact Except.ok.inj hout
    next hzero => rw [if_neg hzero]; exact Except.ok.inj hout
  · rintro ⟨hsizes, rfl⟩
    refine ⟨(), hsizes, ?_⟩
    dsimp only
    split <;> rfl

theorem size_of_add_eq_ok {dst src out : Buffer} {opacity : Float32}
    (h : dst.add src opacity = .ok out) : out.size = dst.size := by
  rw [← (add_eq_ok_iff.mp h).2]
  split
  next => rfl
  next => rw [size_updateBytes]

theorem pixelAt_of_add_eq_ok {dst src out : Buffer} {opacity : Float32}
    (h : dst.add src opacity = .ok out) {p : Nat} (hp : p < dst.pixelCount) :
    out.pixelAt p = (dst.pixelAt p).zipWith
      (fun x y => saturatingAdd x (mul255 y (Pixel.fractionByte opacity))) (src.pixelAt p) := by
  obtain ⟨-, hout⟩ := add_eq_ok_iff.mp h
  refine Pixel.ext_channel fun c => ?_
  have hc := c.index_lt
  have hbyte : 4 * p + c.index < dst.size := by
    rw [pixelCount] at hp
    omega
  rw [Pixel.channel_zipWith, channel_pixelAt, channel_pixelAt, channel_pixelAt, ← hout]
  split
  next hzero => rw [hzero, mul255_zero, saturatingAdd_zero]
  next => rw [byteAt_updateBytes _ _ _ hbyte, if_pos hbyte]

@[simp] theorem size_fillOver (dst : Buffer) (color : Pixel) :
    (dst.fillOver color).size = dst.size := by
  rw [fillOver]
  split
  next => rfl
  next => rw [size_mapPixels]

/-- One colour over every pixel is that colour laid over each at full opacity, also when it is
transparent and nothing is done. -/
theorem pixelAt_fillOver (dst : Buffer) (color : Pixel) {p : Nat} (hp : p < dst.pixelCount) :
    (dst.fillOver color).pixelAt p = color.sourceOver 255 (dst.pixelAt p) := by
  rw [fillOver]
  split
  next h => rw [Pixel.sourceOver, h, mul255_comm, mul255_zero, if_pos rfl]
  next h => rw [pixelAt_mapPixels _ _ hp, Pixel.sourceOver_full h]

theorem maskWith_eq_updateSpan (layer mask : Buffer) :
    layer.maskWith mask = layer.updateSpan 0 (min layer.pixelCount mask.size)
      fun i q => q.map (mul255 · (mask.byteAt i)) := by
  rw [maskWith, updateSpan]
  congr 1
  funext i _ acc
  rw [Nat.zero_add]

@[simp] theorem size_maskWith (layer mask : Buffer) : (layer.maskWith mask).size = layer.size := by
  rw [maskWith_eq_updateSpan, size_updateSpan]

/-! ### A buffer somewhere on another -/

/-- A run of pixels in one row of each of two buffers, by the places where it starts. -/
structure Span where
  target : Int
  source : Int
  length : Int
deriving Repr, DecidableEq

/-- The bytes of a span lie within both buffers. -/
structure Span.InBounds (span : Span) (dst src : Buffer) : Prop where
  target_nonneg : 0 ≤ span.target
  source_nonneg : 0 ≤ span.source
  length_nonneg : 0 ≤ span.length
  target_le : 4 * (span.target + span.length) ≤ dst.size
  source_le : 4 * (span.source + span.length) ≤ src.size

/-- The runs of pixels that `Buffer.overAt` lays over, row by row. -/
def overAtSpans (dw dh sw sh : Nat) (x y : Int) : List Span :=
  let left := max x 0
  let right := min (x + sw) dw
  if left < right then
    (List.range sh).filterMap fun (row : Nat) =>
      let target := y + row
      if 0 ≤ target ∧ target < dh then
        some ⟨target * dw + left, row * sw + (left - x), right - left⟩
      else none
  else []

/-- Placing a buffer is laying over the listed runs one after the other. -/
theorem overAt_eq_foldl (dst : Buffer) (dw dh : Nat) (src : Buffer) (sw sh : Nat) (x y : Int) :
    dst.overAt dw dh src sw sh x y = (overAtSpans dw dh sw sh x y).foldl
      (fun acc span => acc.overSpan span.target.toNat src span.source.toNat
        span.length.toNat 255) dst := by
  rw [overAt, overAtSpans]
  split
  next =>
    induction sh with
    | zero => rfl
    | succ sh ih =>
      rw [Nat.fold_succ, List.range_succ, List.filterMap_append, List.foldl_append, ← ih]
      by_cases hrow : 0 ≤ y + (sh : Int) ∧ y + (sh : Int) < dh
      · simp [hrow]
      · simp [hrow]
  next => rfl

/-- What lies in one row of a picture lies in the picture. -/
private theorem row_add_le {row height : Nat} (width : Nat) (place : Int) (hrow : row < height)
    (hplace : place ≤ width) : (row : Int) * width + place ≤ (width * height : Nat) := by
  have hrows : (row + 1) * width ≤ height * width := Nat.mul_le_mul_right width hrow
  rw [Nat.succ_mul, Nat.mul_comm height width] at hrows
  omega

/-- **No row leaves its buffer**, wherever the source is placed. -/
theorem overAtSpans_inBounds {dst src : Buffer} {dw dh sw sh : Nat}
    (hdst : dst.size = 4 * (dw * dh)) (hsrc : src.size = 4 * (sw * sh)) (x y : Int) :
    ∀ span ∈ overAtSpans dw dh sw sh x y, span.InBounds dst src := by
  intro span hspan
  rw [overAtSpans] at hspan
  split at hspan
  next hcut =>
    obtain ⟨row, hrow, hspan⟩ := List.mem_filterMap.mp hspan
    rw [List.mem_range] at hrow
    dsimp only at hspan
    split at hspan
    next hin =>
      obtain ⟨target, htarget⟩ := Int.eq_ofNat_of_zero_le hin.1
      rw [htarget] at hin hspan
      cases hspan
      -- both ends of the run, first in the destination row, then in the source row
      have htargetRow := row_add_le dw (min (x + sw) dw) (Int.ofNat_lt.mp hin.2) (by omega)
      have hsourceRow := row_add_le sw (min (x + sw) dw - x) hrow (by omega)
      have htargetStart : 0 ≤ (target : Int) * dw :=
        Int.mul_nonneg (Int.natCast_nonneg _) (Int.natCast_nonneg _)
      have hsourceStart : 0 ≤ (row : Int) * sw :=
        Int.mul_nonneg (Int.natCast_nonneg _) (Int.natCast_nonneg _)
      constructor <;> dsimp only <;> omega
    next => cases hspan
  next => cases hspan

/-- The rows of `Buffer.overAt` down to the first `rows` of the source, cut to the columns from
`left` to `right`. -/
def overRows (dst : Buffer) (dw dh : Nat) (src : Buffer) (sw : Nat) (x y left right : Int)
    (rows : Nat) : Buffer :=
  rows.fold (fun row _ acc =>
    let target := y + row
    if 0 ≤ target ∧ target < dh then
      acc.overSpan (target * dw + left).toNat src (row * sw + (left - x)).toNat
        (right - left).toNat 255
    else acc) dst

theorem overAt_eq_overRows (dst : Buffer) (dw dh : Nat) (src : Buffer) (sw sh : Nat) (x y : Int) :
    dst.overAt dw dh src sw sh x y = if max x 0 < min (x + sw) dw then
      dst.overRows dw dh src sw x y (max x 0) (min (x + sw) dw) sh else dst := rfl

theorem overRows_succ (dst : Buffer) (dw dh : Nat) (src : Buffer) (sw : Nat)
    (x y left right : Int) (rows : Nat) :
    dst.overRows dw dh src sw x y left right (rows + 1) =
      if 0 ≤ y + (rows : Int) ∧ y + (rows : Int) < dh then
        (dst.overRows dw dh src sw x y left right rows).overSpan
          ((y + rows) * dw + left).toNat src (rows * sw + (left - x)).toNat
          (right - left).toNat 255
      else dst.overRows dw dh src sw x y left right rows := by
  rw [overRows, Nat.fold_succ]
  rfl

@[simp] theorem size_overRows (dst : Buffer) (dw dh : Nat) (src : Buffer) (sw : Nat)
    (x y left right : Int) (rows : Nat) :
    (dst.overRows dw dh src sw x y left right rows).size = dst.size := by
  induction rows with
  | zero => rfl
  | succ rows ih =>
    rw [overRows_succ]
    split
    next => rw [size_overSpan, ih]
    next => exact ih

@[simp] theorem size_overAt (dst : Buffer) (dw dh : Nat) (src : Buffer) (sw sh : Nat) (x y : Int) :
    (dst.overAt dw dh src sw sh x y).size = dst.size := by
  rw [overAt_eq_overRows]
  split
  next => rw [size_overRows]
  next => rfl

/-- A place between two columns of one row is in that row. -/
private theorem row_eq_of_between {width row left right Y X : Nat} (hX : X < width)
    (hright : right ≤ width) (hlow : row * width + left ≤ Y * width + X)
    (hhigh : Y * width + X < row * width + right) : Y = row := by
  -- one row more or less is a whole width, which the columns cannot make up for
  have hwidth {a b : Nat} (h : a < b) : a * width + width ≤ b * width :=
    Nat.succ_mul a width ▸ Nat.mul_le_mul_right width h
  rcases Nat.lt_trichotomy Y row with hbelow | rfl | habove
  · have hstep := hwidth hbelow
    omega
  · rfl
  · have hstep := hwidth habove
    omega

/-- A place is in a run along one row if it is between the columns of the run, and in that row. -/
private theorem between_iff {width row left right X Y : Nat} (hX : X < width)
    (hright : right ≤ width) (hcut : left < right) :
    (row * width + left ≤ Y * width + X ∧ Y * width + X < row * width + left + (right - left)) ↔
      (left ≤ X ∧ X < right) ∧ Y = row := by
  constructor
  · rintro ⟨hlow, hhigh⟩
    have hend : Y * width + X < row * width + right := by omega
    obtain rfl := row_eq_of_between hX hright hlow hend
    omega
  · rintro ⟨hcolumn, rfl⟩
    omega

/-- One more row of `Buffer.overAt` writes the pixels of that row between the cut columns, each
from the source pixel that lies there. -/
theorem pixelAt_overSpan_row (acc : Buffer) {dw : Nat} (src : Buffer) (sw : Nat)
    {x left right : Int} (hx : x ≤ left) (hleft : 0 ≤ left) (hright : right ≤ dw)
    (hcut : left < right) (row target : Nat) {X Y : Nat} (hX : X < dw)
    (hp : Y * dw + X < acc.pixelCount) :
    (acc.overSpan ((target : Int) * dw + left).toNat src ((row : Int) * sw + (left - x)).toNat
      (right - left).toNat 255).pixelAt (Y * dw + X) =
      if (left ≤ X ∧ X < right) ∧ Y = target then
        (src.pixelAt ((row : Int) * sw + (X - x)).toNat).sourceOver 255 (acc.pixelAt (Y * dw + X))
      else acc.pixelAt (Y * dw + X) := by
  -- the bounds of the cut and the start of the run, as numbers without a sign
  obtain ⟨l, rfl⟩ := Int.eq_ofNat_of_zero_le hleft
  obtain ⟨r, rfl⟩ := Int.eq_ofNat_of_zero_le (Int.le_trans hleft (Int.le_of_lt hcut))
  obtain ⟨k, hk⟩ := Int.eq_ofNat_of_zero_le (Int.sub_nonneg.mpr hx)
  have hstart : ((target : Int) * dw + l).toNat = target * dw + l := by
    rw [← Int.natCast_mul, ← Int.natCast_add, Int.toNat_natCast]
  have hsource : ((row : Int) * sw + (l - x)).toNat = row * sw + k := by
    rw [hk, ← Int.natCast_mul, ← Int.natCast_add, Int.toNat_natCast]
  have hlength : ((r : Int) - l).toNat = r - l := by omega
  rw [pixelAt_overSpan _ _ _ _ _ _ hp, hstart, hsource, hlength]
  simp only [between_iff hX (Int.ofNat_le.mp hright) (Int.ofNat_lt.mp hcut), Int.ofNat_le,
    Int.ofNat_lt]
  split
  next hin =>
    obtain ⟨hcolumn, rfl⟩ := hin
    have hplace : ((row : Int) * sw + (X - x)).toNat
        = row * sw + k + (Y * dw + X - (Y * dw + l)) := by
      rw [show (X : Int) - x = (k + (X - l) : Nat) by omega, ← Int.natCast_mul,
        ← Int.natCast_add, Int.toNat_natCast]
      omega
    rw [hplace]
  next => rfl

theorem pixelAt_overRows {dst : Buffer} {dw dh : Nat} (src : Buffer) (sw : Nat) {x : Int} (y : Int)
    {left right : Int} (hx : x ≤ left) (hleft : 0 ≤ left) (hright : right ≤ dw)
    (hcut : left < right) (rows : Nat) {X Y : Nat} (hX : X < dw) (hY : Y < dh)
    (hp : Y * dw + X < dst.pixelCount) :
    (dst.overRows dw dh src sw x y left right rows).pixelAt (Y * dw + X) =
      if (left ≤ X ∧ X < right) ∧ (y ≤ Y ∧ Y < y + rows) then
        (src.pixelAt ((Y - y) * sw + (X - x)).toNat).sourceOver 255 (dst.pixelAt (Y * dw + X))
      else dst.pixelAt (Y * dw + X) := by
  induction rows with
  | zero => rw [if_neg (by omega)]; rfl
  | succ rows ih =>
    rw [overRows_succ]
    by_cases hrow : 0 ≤ y + (rows : Int) ∧ y + (rows : Int) < dh
    · obtain ⟨target, htarget⟩ := Int.eq_ofNat_of_zero_le hrow.1
      rw [if_pos hrow, htarget, pixelAt_overSpan_row _ _ _ hx hleft hright hcut _ _ hX
        (by rwa [pixelCount_congr (size_overRows ..)]), ih]
      by_cases hlast : Y = target
      · -- the rows before this one have not come near the place
        have hoffset : (Y : Int) - y = rows := by omega
        rw [hoffset]
        by_cases hin : left ≤ X ∧ X < right
        · rw [if_pos ⟨hin, hlast⟩, if_neg (by omega), if_pos (by omega)]
        · rw [if_neg (by omega), if_neg (by omega), if_neg (by omega)]
      · rw [if_neg (by omega)]
        by_cases hin : (left ≤ X ∧ X < right) ∧ (y ≤ Y ∧ Y < y + rows)
        · rw [if_pos hin, if_pos (by omega)]
        · rw [if_neg hin, if_neg (by omega)]
    · -- a row outside the destination is skipped, and the place is not in it
      rw [if_neg hrow, ih]
      by_cases hin : (left ≤ X ∧ X < right) ∧ (y ≤ Y ∧ Y < y + rows)
      · rw [if_pos hin, if_pos (by omega)]
      · rw [if_neg hin, if_neg (by omega)]

/-- **Placing a buffer at `(x, y)`** lays the source pixel `(X - x, Y - y)` over the pixel `(X, Y)`
where the source has such a pixel, and leaves every other pixel alone. -/
theorem pixelAt_overAt_of_lt {dst : Buffer} {dw dh : Nat} (src : Buffer) (sw sh : Nat) (x y : Int)
    {X Y : Nat} (hX : X < dw) (hY : Y < dh) (hp : Y * dw + X < dst.pixelCount) :
    (dst.overAt dw dh src sw sh x y).pixelAt (Y * dw + X) =
      if (x ≤ X ∧ X < x + sw) ∧ (y ≤ Y ∧ Y < y + sh) then
        (src.pixelAt ((Y - y) * sw + (X - x)).toNat).sourceOver 255 (dst.pixelAt (Y * dw + X))
      else dst.pixelAt (Y * dw + X) := by
  have hcolumns : (max x 0 ≤ X ∧ (X : Int) < min (x + sw) dw) ↔ (x ≤ X ∧ X < x + sw) := by omega
  rw [overAt_eq_overRows]
  split
  next hcut =>
    rw [pixelAt_overRows src sw y (by omega) (by omega) (by omega) hcut sh hX hY hp]
    simp only [hcolumns]
  next hcut => rw [if_neg (by omega)]

/-- Where there is a source pixel at `(sx, sy)`, it is laid over. -/
theorem pixelAt_overAt_of_eq {dst : Buffer} {dw dh : Nat} (src : Buffer) {sw sh : Nat} {x y : Int}
    {X Y sx sy : Nat} (hX : X < dw) (hY : Y < dh) (hp : Y * dw + X < dst.pixelCount) (hsx : sx < sw)
    (hsy : sy < sh) (hx : (X : Int) - x = sx) (hy : (Y : Int) - y = sy) :
    (dst.overAt dw dh src sw sh x y).pixelAt (Y * dw + X) =
      (src.pixelAt (sy * sw + sx)).sourceOver 255 (dst.pixelAt (Y * dw + X)) := by
  have hplace : ((Y - y) * sw + (X - x)).toNat = sy * sw + sx := by
    rw [hx, hy, ← Int.natCast_mul, ← Int.natCast_add, Int.toNat_natCast]
  rw [pixelAt_overAt_of_lt src sw sh x y hX hY hp, if_pos (by omega), hplace]

/-- On a destination of the right size every place has a pixel. -/
theorem pixelAt_overAt {dst : Buffer} {dw dh : Nat} (hdst : dst.size = 4 * (dw * dh))
    (src : Buffer) (sw sh : Nat) (x y : Int) {X Y : Nat} (hX : X < dw) (hY : Y < dh) :
    (dst.overAt dw dh src sw sh x y).pixelAt (Y * dw + X) =
      if (x ≤ X ∧ X < x + sw) ∧ (y ≤ Y ∧ Y < y + sh) then
        (src.pixelAt ((Y - y) * sw + (X - x)).toNat).sourceOver 255 (dst.pixelAt (Y * dw + X))
      else dst.pixelAt (Y * dw + X) :=
  pixelAt_overAt_of_lt src sw sh x y hX hY (place_lt_pixelCount (Nat.le_of_eq hdst.symm) hX hY)

end SceneCanvas.Buffer
