import Mathlib.Data.Rat.Floor
import Mathlib.Tactic.Linarith
import SceneCanvas.Proofs.Affine
import SceneCanvas.Proofs.Caption
import SceneCanvas.Proofs.ExactBlur

/-!
# Captions are not cut by their layers

A caption is painted on a layer of whole pixels. The corner of the layer is rounded down and its
size is rounded up, each by itself, so on the far side almost a pixel of the margin can be lost; the
margin is made for that (`Font.around_subset_layer`).

The shadow of a caption is its mask, moved and then blurred. Both are done within the layer, where
taps beside it are skipped. `Font.plane` extends a mask with zeros to the whole plane:

* `Font.plane_shiftMask`: a mask that keeps clear of the borders is moved as a whole.
* `Font.plane_alphaMask_convolve`: blurring it within the layer is to blur it on the plane, since
  nothing reaches beyond the layer.
* `Font.captions_not_cut` puts everything together.
-/

namespace SceneCanvas

/-! ### Blurring on the whole plane -/

namespace Kernel

/-- The weighted sum, at position `x`, of a line that goes on for ever. -/
def sumOver (k : Kernel) (line : Int → UInt8) (x : Int) : Nat :=
  ∑ j ∈ Finset.range k.size, k.getD j 0 * (line (x + j - (k.size / 2 : Nat))).toNat

/-- A line of `n` samples that goes on with zeros has the same sum: the taps that are skipped count
as nothing. -/
theorem sumAt_eq_sumOver (k : Kernel) {n : Nat} {sample : Nat → UInt8} {line : Int → UInt8}
    (hin : ∀ i < n, line i = sample i) (hout : ∀ i : Int, i < 0 ∨ n ≤ i → line i = 0) (x : Nat) :
    k.sumAt n (fun i => (sample i).toNat) x = k.sumOver line x := by
  rw [sumAt_eq_sum_ite, sumOver]
  refine Finset.sum_congr rfl fun j _ => ?_
  split
  next htap =>
    have hplace : (x + j - (k.size / 2 : Nat) : Int) = (x + j - k.size / 2 : Nat) := by omega
    rw [hplace, hin _ (by omega)]
  next htap =>
    rw [hout _ (by omega)]
    rfl

/-- Where everything under the kernel is zero, so is the blur. -/
theorem toByte_sumOver_eq_zero {k : Kernel} {line : Int → UInt8} {x : Int}
    (h : ∀ j < k.size, line (x + j - (k.size / 2 : Nat)) = 0) : toByte (k.sumOver line x) = 0 := by
  have hsum : k.sumOver line x = 0 := by
    refine Finset.sum_eq_zero fun j hj => ?_
    rw [h j (Finset.mem_range.mp hj)]
    rfl
  rw [hsum]
  rfl

/-- What is blurred to something is near something. -/
theorem exists_near_of_toByte_sumOver_ne_zero {k : Kernel} {r : Nat} (hk : k.size = 2 * r + 1)
    {line : Int → UInt8} {x : Int} (h : toByte (k.sumOver line x) ≠ 0) :
    ∃ i, line i ≠ 0 ∧ i - r ≤ x ∧ x ≤ i + r := by
  by_contra hnone
  refine h (toByte_sumOver_eq_zero fun j hj => ?_)
  by_contra hne
  exact hnone ⟨_, hne, by omega, by omega⟩

/-- A byte of the plane, once the rows have been blurred. -/
def planeRow (k : Kernel) (picture : Int → Int → UInt8) (x y : Int) : UInt8 :=
  toByte (k.sumOver (fun x' => picture x' y) x)

/-- A byte of the plane, once the columns have been blurred as well. -/
def planeBlur (k : Kernel) (picture : Int → Int → UInt8) (x y : Int) : UInt8 :=
  toByte (k.sumOver (fun y' => k.planeRow picture x y') y)

end Kernel

namespace Font

open Script (Align Baseline)

/-- The pixel lies in a layer of `w` by `h` pixels, at least `m` pixels from each border. -/
def Inset (w h m : Nat) (x y : Int) : Prop := m ≤ x ∧ x + m < w ∧ m ≤ y ∧ y + m < h

instance (w h m : Nat) (x y : Int) : Decidable (Inset w h m x y) :=
  inferInstanceAs (Decidable (_ ∧ _))

/-- A mask of `w` by `h` bytes that goes on beyond its borders with zeros. -/
def plane (mask : Buffer) (w h : Nat) (x y : Int) : UInt8 :=
  if Inset w h 0 x y then mask.byteAt (y.toNat * w + x.toNat) else 0

theorem plane_natCast (mask : Buffer) {w h x y : Nat} (hx : x < w) (hy : y < h) :
    plane mask w h x y = mask.byteAt (y * w + x) := by
  have hin : Inset w h 0 x y := by
    unfold Inset
    omega
  rw [plane, if_pos hin, Int.toNat_natCast, Int.toNat_natCast]

theorem inset_of_plane_ne_zero {mask : Buffer} {w h : Nat} {x y : Int}
    (hne : plane mask w h x y ≠ 0) : Inset w h 0 x y := by
  by_contra hout
  exact hne (if_neg hout)

/-- The bytes of a mask that are not zero keep clear of the borders. -/
def KeepsClear (mask : Buffer) (w h m : Nat) : Prop :=
  ∀ x y : Int, plane mask w h x y ≠ 0 → Inset w h m x y

theorem keepsClear_iff {mask : Buffer} {w h m : Nat} : KeepsClear mask w h m ↔
    ∀ x < w, ∀ y < h, mask.byteAt (y * w + x) ≠ 0 → Inset w h m x y := by
  constructor
  · intro hclear x hx y hy hne
    exact hclear x y (by rwa [plane_natCast mask hx hy])
  · intro hclear x y hne
    obtain ⟨hx, hx', hy, hy'⟩ := inset_of_plane_ne_zero hne
    obtain ⟨X, rfl⟩ := Int.eq_ofNat_of_zero_le hx
    obtain ⟨Y, rfl⟩ := Int.eq_ofNat_of_zero_le hy
    have hX : X < w := by omega
    have hY : Y < h := by omega
    rw [plane_natCast mask hX hY] at hne
    exact hclear X hX Y hY hne

instance (mask : Buffer) (w h m : Nat) : Decidable (KeepsClear mask w h m) :=
  decidable_of_iff _ keepsClear_iff.symm

/-! ### Moving -/

/-- **A mask that keeps clear of the borders is moved as a whole.** -/
theorem plane_shiftMask {mask : Buffer} {w h m dx dy : Nat} (hsize : mask.size = w * h)
    (hclear : KeepsClear mask w h m) (hdx : dx ≤ m) (hdy : dy ≤ m) (x y : Int) :
    plane (shiftMask mask w h dx dy) w h x y = plane mask w h (x - dx) (y - dy) := by
  by_cases hin : Inset w h 0 x y
  · obtain ⟨X, rfl⟩ := Int.eq_ofNat_of_zero_le hin.1
    obtain ⟨Y, rfl⟩ := Int.eq_ofNat_of_zero_le hin.2.2.1
    have hX : X < w := by have := hin.2.1; omega
    have hY : Y < h := by have := hin.2.2.2; omega
    obtain ⟨hlt, hdiv, hmod⟩ := Buffer.place_spec hX hY
    rw [plane_natCast _ hX hY, shiftMask, Buffer.byteAt_ofBytes _ _ (by rwa [hsize]), hdiv, hmod]
    by_cases hsource : dx ≤ X ∧ dy ≤ Y
    · have hcolumn : ((X : Int) - dx) = (X - dx : Nat) := by omega
      have hrow : ((Y : Int) - dy) = (Y - dy : Nat) := by omega
      rw [if_pos ⟨hsource.1, hsource.2, hY⟩, hcolumn, hrow, plane_natCast _ (by omega) (by omega)]
    · have hout : ¬ Inset w h 0 ((X : Int) - dx) (Y - dy) := by
        unfold Inset
        omega
      rw [if_neg fun hall => hsource ⟨hall.1, hall.2.1⟩, plane, if_neg hout]
  · -- nothing is moved over the border
    have hzero : plane mask w h (x - dx) (y - dy) = 0 := by
      by_contra hne
      have := hclear _ _ hne
      unfold Inset at this hin
      omega
    rw [hzero, plane, if_neg hin]

/-- After it has been moved, a mask still keeps clear of the borders. -/
theorem KeepsClear.shiftMask {mask : Buffer} {w h m n dx dy : Nat} (hsize : mask.size = w * h)
    (hclear : KeepsClear mask w h m) (hdx : dx + n ≤ m) (hdy : dy + n ≤ m) :
    KeepsClear (shiftMask mask w h dx dy) w h n := by
  intro x y hne
  rw [plane_shiftMask hsize hclear (by omega) (by omega)] at hne
  have := hclear _ _ hne
  unfold Inset at this ⊢
  omega

/-! ### Blurring -/

section Blur

variable {mask : Buffer} {w h r : Nat} {k : Kernel}

/-- Nothing is blurred over the border. -/
theorem inset_of_planeBlur_ne_zero (hk : k.size = 2 * r + 1) (hclear : KeepsClear mask w h r)
    {x y : Int} (hne : k.planeBlur (plane mask w h) x y ≠ 0) : Inset w h 0 x y := by
  obtain ⟨y', hrow, hy⟩ := Kernel.exists_near_of_toByte_sumOver_ne_zero hk hne
  obtain ⟨x', hbyte, hx⟩ := Kernel.exists_near_of_toByte_sumOver_ne_zero hk hrow
  have := hclear _ _ hbyte
  unfold Inset at this ⊢
  omega

/-- Within the layer, the rows are blurred as those of the plane are. -/
private theorem rowBlur_spread (hsize : mask.size = w * h) (x : Nat) {y : Nat} (hy : y < h) :
    (spread mask).rowBlur w k .alpha x y = k.planeRow (plane mask w h) x y := by
  refine congrArg Kernel.toByte (k.sumAt_eq_sumOver (fun i hi => ?_) (fun i hi => ?_) x)
  · have hplace : y * w + i < mask.size := hsize ▸ Buffer.place_lt hi hy
    rw [plane_natCast _ hi hy, spread, Buffer.pixelAt_ofPixels _ _ hplace, Pixel.channel_alpha]
  · refine if_neg ?_
    unfold Inset
    omega

/-- **Within the layer, the blur is that of the plane.** -/
theorem alpha_convolve_spread (hsize : mask.size = w * h) {x y : Nat} (hx : x < w) (hy : y < h) :
    (((spread mask).convolve w h k).pixelAt (y * w + x)).a = k.planeBlur (plane mask w h) x y := by
  rw [← Pixel.channel_alpha, Buffer.channel_convolve k _ hx hy]
  refine congrArg Kernel.toByte (k.sumAt_eq_sumOver (fun i hi => ?_) (fun i hi => ?_) y)
  · exact (rowBlur_spread hsize x hi).symm
  · -- the rows above and below the layer are empty
    refine Kernel.toByte_sumOver_eq_zero fun j _ => if_neg ?_
    unfold Inset
    omega

/-- **Blurring a mask that keeps clear of the borders** gives what it gives on the plane. -/
theorem plane_alphaMask_convolve (hsize : mask.size = w * h) (hk : k.size = 2 * r + 1)
    (hclear : KeepsClear mask w h r) (x y : Int) :
    plane (alphaMask ((spread mask).convolve w h k)) w h x y
      = k.planeBlur (plane mask w h) x y := by
  by_cases hin : Inset w h 0 x y
  · obtain ⟨X, rfl⟩ := Int.eq_ofNat_of_zero_le hin.1
    obtain ⟨Y, rfl⟩ := Int.eq_ofNat_of_zero_le hin.2.2.1
    have hX : X < w := by have := hin.2.1; omega
    have hY : Y < h := by have := hin.2.2.2; omega
    have hplace : Y * w + X < ((spread mask).convolve w h k).pixelCount := by
      rw [Buffer.pixelCount, Buffer.size_convolve, Nat.mul_div_cancel _ (by decide)]
      exact Buffer.place_lt hX hY
    rw [plane_natCast _ hX hY, alphaMask, Buffer.byteAt_ofBytes _ _ hplace,
      alpha_convolve_spread hsize hX hY]
  · have hzero : k.planeBlur (plane mask w h) x y = 0 := by
      by_contra hne
      exact hin (inset_of_planeBlur_ne_zero hk hclear hne)
    rw [hzero, plane, if_neg hin]

end Blur

/-- Masks are blurred as pictures are. -/
private theorem softenMask_eq_ite {mask : Buffer} {w h r : Nat} (hsize : mask.size = w * h)
    {sigma : Float32} {k : Kernel} (hk : Kernel.gaussian r sigma = .ok k) :
    softenMask mask w h r sigma = if w * h * 4 < Word.count64
      then .ok (alphaMask ((spread mask).convolve w h k)) else .error .blurSize := by
  have hspread : (spread mask).size = w * h * 4 := by rw [size_spread, hsize, Nat.mul_comm]
  rw [softenMask]
  split
  next hword => rw [Buffer.exactBlur_eq_ok hword hspread hk]; rfl
  next hlarge => rw [Buffer.exactBlur, if_pos (Nat.not_lt.mp hlarge)]; rfl

/-- **The shadow** of a mask that keeps clear of the borders is that of the plane. -/
theorem exists_shadow {mask : Buffer} {w h : Nat} (hsize : mask.size = w * h)
    (hclear : KeepsClear mask w h 5) {sigma : Float32} (hfinite : sigma.isFinite = true)
    (hpos : ¬ sigma ≤ 0.0) :
    let moved := shiftMask mask w h 1 2
    ∃ k soft, Kernel.gaussian 3 sigma = .ok k ∧ k.size = 7 ∧
      softenMask moved w h 3 sigma
        = (if w * h * 4 < Word.count64 then .ok soft else .error .blurSize) ∧
      soft.size = w * h ∧
      ∀ x y, plane soft w h x y = k.planeBlur (plane moved w h) x y ∧
        (k.planeBlur (plane moved w h) x y ≠ 0 → Inset w h 0 x y) := by
  intro moved
  obtain ⟨k, hk, hksize⟩ := Kernel.exists_gaussian_eq_ok hfinite hpos 3
  have hmoved : moved.size = w * h := (size_shiftMask ..).trans hsize
  have hclear' : KeepsClear moved w h 3 := hclear.shiftMask hsize (by decide) (by decide)
  refine ⟨k, alphaMask ((spread moved).convolve w h k), hk, hksize, softenMask_eq_ite hmoved hk,
    ?_, fun x y => ⟨?_, ?_⟩⟩
  · rw [size_alphaMask, Buffer.size_convolve, Nat.mul_div_cancel _ (by decide)]
  · exact plane_alphaMask_convolve hmoved hksize hclear' x y
  · exact inset_of_planeBlur_ne_zero hksize hclear'

/-! ### The layer -/

/-- The points of a line box, grown by `d` on every side. -/
def around (line : LineBox Rat) (origin : Vec Rat) (d : Rat) : Set (Vec Rat) :=
  Vec.rectangle ⟨origin.x - d, origin.y - d⟩ ⟨line.width + 2 * d, line.height + 2 * d⟩

/-- The points of a pixel of a layer with the given corner. -/
def square (corner : Vec Rat) (x y : Int) : Set (Vec Rat) :=
  Vec.rectangle ⟨corner.x + x, corner.y + y⟩ ⟨1, 1⟩

/-- The number of pixels in a length, as it is kept in sixteen bits. -/
def wholePixels (length : Rat) : Nat := min 65535 (Scalar.truncate length).toNat

/-- Where sixteen bits are enough, nothing is cut off a length that has been rounded up. -/
theorem le_wholePixels_ceil {length : Rat} (hfits : Scalar.ceil length ≤ 65535) :
    length ≤ wholePixels (Scalar.ceil length) := by
  have htruncate : Scalar.truncate (Scalar.ceil length) = length.ceil := by
    change Int.tdiv (length.ceil : Rat).num (length.ceil : Rat).den = _
    rw [Rat.num_intCast, Rat.den_intCast, Nat.cast_one, Int.tdiv_one]
  have hceil : length.ceil ≤ 65535 := by
    have hcast : (length.ceil : Rat) ≤ 65535 := hfits
    exact_mod_cast hcast
  have hpixels : length.ceil ≤ wholePixels (Scalar.ceil length) := by
    rw [wholePixels, htruncate]
    omega
  calc length ≤ length.ceil := Rat.le_ceil
    _ ≤ wholePixels (Scalar.ceil length) := by exact_mod_cast hpixels

/-- The outline and seven pixels more fit before the start of a line and behind its end. On the far
side, up to a pixel of the margin is lost to rounding the corner. -/
theorem margin_fits (start : Rat) {length radius : Rat}
    (hfits : Scalar.ceil (length + 2.0 * margin radius) ≤ 65535) :
    let first : Rat := Scalar.floor (start - margin radius)
    first ≤ start - (radius + 7) ∧
      start + length + (radius + 7)
        ≤ first + wholePixels (Scalar.ceil (length + 2.0 * margin radius)) := by
  intro first
  have hmargin : margin radius = (radius.ceil : Rat) + 8 := by
    change (radius.ceil : Rat) + 8.0 = _
    norm_num
  have hradius : radius ≤ radius.ceil := Rat.le_ceil
  have hfirst : first ≤ start - margin radius := Rat.floor_le _
  have hlast := Rat.lt_floor_add_one (start - margin radius)
  rw [Rat.intCast_add] at hlast
  change _ < first + 1 at hlast
  have hlength := le_wholePixels_ceil hfits
  norm_num at hlength
  constructor
  · linarith
  · linarith

/-- A pixel that meets the line, or the outline around it, keeps clear of the ends. -/
private theorem inset_axis {start length radius q : Rat} {x : Int}
    (hfits : Scalar.ceil (length + 2.0 * margin radius) ≤ 65535)
    (hpixel : q ∈ Set.Icc (Scalar.floor (start - margin radius) + (x : Rat))
      (Scalar.floor (start - margin radius) + (x : Rat) + 1))
    (hline : q ∈ Set.Icc (start - radius) (start - radius + (length + 2 * radius))) :
    5 ≤ x ∧ x + 5 < wholePixels (Scalar.ceil (length + 2.0 * margin radius)) := by
  obtain ⟨hfirst, hlast⟩ := margin_fits start hfits
  obtain ⟨hx, hx'⟩ := hpixel
  obtain ⟨hq, hq'⟩ := hline
  have hlow : (5 : Rat) ≤ x := by linarith
  have hhigh : (x : Rat) + 5 < wholePixels (Scalar.ceil (length + 2.0 * margin radius)) := by
    linarith
  exact ⟨by exact_mod_cast hlow, by exact_mod_cast hhigh⟩

section Layer

variable {line : LineBox Rat} {origin : Vec Rat} {radius : Rat}
  (hwidth : (layerFrame line origin radius).size.x ≤ 65535)
  (hheight : (layerFrame line origin radius).size.y ≤ 65535)

include hwidth hheight

/-- **A line with its outline and seven pixels more** lies on its layer. -/
theorem around_subset_layer :
    around line origin (radius + 7) ⊆ Vec.rectangle (layerFrame line origin radius).corner
      ⟨wholePixels (layerFrame line origin radius).size.x,
        wholePixels (layerFrame line origin radius).size.y⟩ := by
  obtain ⟨hfirst, hlast⟩ := margin_fits origin.x hwidth
  obtain ⟨hfirst', hlast'⟩ := margin_fits origin.y hheight
  have hends (start length : Rat) :
      start - (radius + 7) + (length + 2 * (radius + 7)) = start + length + (radius + 7) := by
    ring
  rintro p ⟨⟨hleft, hright⟩, htop, hbottom⟩
  rw [hends] at hright hbottom
  exact ⟨⟨hfirst.trans hleft, hright.trans hlast⟩, hfirst'.trans htop, hbottom.trans hlast'⟩

/-- **The pixels of the outline** keep clear of the borders of the layer. -/
theorem inset_of_meets {x y : Int}
    (h : (square (layerFrame line origin radius).corner x y
      ∩ around line origin radius).Nonempty) :
    Inset (wholePixels (layerFrame line origin radius).size.x)
      (wholePixels (layerFrame line origin radius).size.y) 5 x y := by
  obtain ⟨p, ⟨hx, hy⟩, hx', hy'⟩ := h
  obtain ⟨hleft, hright⟩ := inset_axis hwidth hx hx'
  obtain ⟨htop, hbottom⟩ := inset_axis hheight hy hy'
  exact ⟨hleft, hright, htop, hbottom⟩

end Layer

/-- A line box lies in what it is grown to. -/
theorem around_zero_subset {radius : Rat} (hradius : 0 ≤ radius) (line : LineBox Rat)
    (origin : Vec Rat) : around line origin 0 ⊆ around line origin radius := by
  rintro p ⟨⟨hleft, hright⟩, htop, hbottom⟩
  dsimp only at hleft hright htop hbottom
  refine ⟨⟨?_, ?_⟩, ?_, ?_⟩ <;> dsimp only <;> linarith

/-- **Captions are not cut by their layers.** Nothing is rounded in what is said of frames.

* The frame of a caption lies on whole pixels. As long as its sides can be kept in sixteen bits, it
  contains the line box grown by the radius of the outline and seven pixels more on every side, and
  the pixels that meet the line or its outline keep clear of its borders by five pixels.
* A mask that keeps clear of the borders by five pixels is moved as a whole by the shadow's offset,
  and it keeps clear of them by the three pixels that the blur reaches. Blurring the moved mask on
  the layer gives at every place what it gives on the unbounded plane, which is nothing beside the
  layer; only a layer with more bytes than can be counted is refused.
* So the shadow of glyphs that lie in their line box is the same as without a layer. -/
theorem captions_not_cut :
    (∀ (line : LineBox Rat) (align : Align) (baseline : Baseline) (anchor : Vec Rat) (size : Rat),
      0 < size →
      let radius := strokeWidth size / 2.0
      let origin := layoutOrigin line align baseline anchor
      let frame := layerFrame line origin radius
      let w := wholePixels frame.size.x
      let h := wholePixels frame.size.y
      (∃ x y : Int, frame.corner = ⟨x, y⟩) ∧ (∃ bw bh : Int, frame.size = ⟨bw, bh⟩) ∧
      (frame.size.x ≤ 65535 → frame.size.y ≤ 65535 →
        around line origin (radius + 7) ⊆ Vec.rectangle frame.corner ⟨w, h⟩ ∧
        (∀ x y, (square frame.corner x y ∩ around line origin radius).Nonempty →
          Inset w h 5 x y) ∧
        ∀ mask : Buffer, mask.size = w * h →
          (∀ x y, plane mask w h x y ≠ 0 →
            (square frame.corner x y ∩ around line origin 0).Nonempty) →
          ∃ k soft, Kernel.gaussian 3 1.0 = .ok k ∧
            softenMask (shiftMask mask w h 1 2) w h 3 1.0 = .ok soft ∧
            ∀ x y, plane soft w h x y
              = k.planeBlur (fun x y => plane mask w h (x - 1) (y - 2)) x y)) ∧
    ∀ (mask : Buffer) (w h : Nat), mask.size = w * h → KeepsClear mask w h 5 →
      let moved := shiftMask mask w h 1 2
      (∀ x y, plane moved w h x y = plane mask w h (x - 1) (y - 2)) ∧ KeepsClear moved w h 3 ∧
      ∀ sigma : Float32, sigma.isFinite = true → ¬ sigma ≤ 0.0 →
        ∃ k soft, Kernel.gaussian 3 sigma = .ok k ∧ k.size = 7 ∧
          softenMask moved w h 3 sigma
            = (if w * h * 4 < Word.count64 then .ok soft else .error .blurSize) ∧
          soft.size = w * h ∧
          ∀ x y, plane soft w h x y = k.planeBlur (plane moved w h) x y ∧
            (k.planeBlur (plane moved w h) x y ≠ 0 → Inset w h 0 x y) := by
  refine ⟨?frames, ?masks⟩
  case frames =>
    intro line align baseline anchor size hsize radius origin frame w h
    have hradius : 0 ≤ radius := by
      change 0 ≤ size / 16.0 / 2.0
      positivity
    refine ⟨⟨_, _, rfl⟩, ⟨_, _, rfl⟩, fun hwidth hheight => ?_⟩
    refine ⟨around_subset_layer hwidth hheight, fun x y => inset_of_meets hwidth hheight, ?_⟩
    intro mask hmask hglyphs
    have hclear : KeepsClear mask w h 5 := by
      intro x y hne
      obtain ⟨p, hp, hline⟩ := hglyphs x y hne
      exact inset_of_meets hwidth hheight ⟨p, hp, around_zero_subset hradius line origin hline⟩
    have hword : w * h * 4 < Word.count64 := by
      have hsides : w * h * 4 ≤ 65535 * 65535 * 4 :=
        Nat.mul_le_mul_right 4 (Nat.mul_le_mul (Nat.min_le_left ..) (Nat.min_le_left ..))
      exact Nat.lt_of_le_of_lt hsides (by decide)
    have hfinite : (1.0 : Float32).isFinite = true := by decide
    obtain ⟨k, soft, hk, -, hsoft, -, hplane⟩ := exists_shadow hmask hclear hfinite (by decide)
    rw [if_pos hword] at hsoft
    refine ⟨k, soft, hk, hsoft, fun x y => ?_⟩
    rw [(hplane x y).1]
    exact congrArg (k.planeBlur · x y)
      (funext₂ fun x y => plane_shiftMask hmask hclear (by decide) (by decide) x y)
  case masks =>
    intro mask w h hmask hclear moved
    refine ⟨fun x y => plane_shiftMask hmask hclear (by decide) (by decide) x y,
      hclear.shiftMask hmask (by decide) (by decide), fun sigma hfinite hpos => ?_⟩
    exact exists_shadow hmask hclear hfinite hpos

/-- A caption between two pixels, and a mask that is as close to its borders as it may be. -/
theorem captions_not_cut_dot :
    let line : LineBox Rat := ⟨40, 16, 12, 4, 12⟩
    let origin := layoutOrigin line .center .middle ⟨100 / 3, 50⟩
    let mask := Buffer.ofBytes 121 fun i => if i = 60 then 200 else 0
    let moved := shiftMask mask 11 11 1 2
    around line origin (1 / 2 + 7) ⊆ Vec.rectangle ⟨4, 33⟩ ⟨58, 34⟩ ∧
    (∀ x y, plane moved 11 11 x y = plane mask 11 11 (x - 1) (y - 2)) ∧
    ∃ k soft, Kernel.gaussian 3 1.0 = .ok k ∧ softenMask moved 11 11 3 1.0 = .ok soft ∧
      ∀ x y, plane soft 11 11 x y = k.planeBlur (plane moved 11 11) x y := by
  intro line origin mask moved
  have hframe : layerFrame line origin (1 / 2) = ⟨⟨4, 33⟩, ⟨58, 34⟩⟩ := by decide +kernel
  have hradius : strokeWidth (16 : Rat) / 2.0 = 1 / 2 := by decide +kernel
  have hclear : KeepsClear mask 11 11 5 := by decide +kernel
  obtain ⟨hframes, hmasks⟩ := captions_not_cut
  obtain ⟨-, -, hfits⟩ := hframes line .center .middle ⟨100 / 3, 50⟩ 16 (by decide)
  obtain ⟨hmoved, -, hsoft⟩ := hmasks mask 11 11 (Buffer.size_ofBytes ..) hclear
  obtain ⟨k, soft, hk, -, hok, -, hplane⟩ := hsoft 1.0 (by decide) (by decide)
  rw [if_pos (by decide)] at hok
  refine ⟨?_, hmoved, k, soft, hk, hok, fun x y => (hplane x y).1⟩
  rw [hradius, hframe] at hfits
  exact (hfits (by decide) (by decide)).1

end Font

end SceneCanvas
