import Mathlib.Algebra.BigOperators.Fin
import SceneCanvas.Blur.Gaussian
import SceneCanvas.Proofs.Convolution

/-!
# Blurring up to the edges

A convolution skips the taps that fall beside a picture, so a blurred picture fades towards its
sides. Growing the picture first, its border stretched outwards, and cutting the middle out of the
blurred result gives the convolution of the picture that goes on beyond its sides for ever: a tap
that falls beside the picture takes the nearest pixel instead.

* `Kernel.sumAt_eq_sum`: where the whole kernel lies on the line, no tap is skipped.
* `Buffer.channel_blurWithin`: growing, convolving and cutting, as one equation a channel.
* `Buffer.edge_padded_blur` puts everything together, with the sizes, uniform pictures, and the
  kernels that small deviations lead to.
-/

namespace SceneCanvas

/-- The index nearest to `i` on a line of `n` samples. -/
def edgeIndex (n : Nat) (i : Int) : Nat := (max 0 (min i (n - 1))).toNat

theorem edgeIndex_lt {n : Nat} (hn : 0 < n) (i : Int) : edgeIndex n i < n := by
  rw [edgeIndex]
  omega

/-! ### Kernels that lie on the line -/

namespace Kernel

/-- Centred at position `x`, the kernel lies on a line of `n` samples with all its taps. -/
def Covers (k : Kernel) (n x : Nat) : Prop :=
  ∀ j < k.size, k.size / 2 ≤ x + j ∧ x + j < k.size / 2 + n

/-- The weighted sum, at position `x`, of a line of `n` samples that goes on beyond its ends with
the first and the last of them. -/
def edgeSum (k : Kernel) (n : Nat) (sample : Nat → Nat) (x : Nat) : Nat :=
  ∑ j : Fin k.size, k[j] * sample (edgeIndex n (x + j - (k.size / 2 : Nat)))

/-- A loop that adds up is a sum. -/
theorem fold_add_eq_sum (n : Nat) (f : Fin n → Nat) :
    n.fold (fun j hj acc => acc + f ⟨j, hj⟩) 0 = ∑ j : Fin n, f j := by
  induction n with
  | zero => rfl
  | succ n ih =>
    rw [Nat.fold_succ, Fin.sum_univ_castSucc]
    exact congrArg (· + f (Fin.last n)) (ih fun j => f j.castSucc)

/-- **Where the whole kernel lies on the line, no tap is skipped.** -/
theorem sumAt_eq_sum {k : Kernel} {n x : Nat} (hcovers : k.Covers n x) (sample : Nat → Nat) :
    k.sumAt n sample x = ∑ j : Fin k.size, k[j] * sample (x + j - k.size / 2) := by
  rw [sumAt, ← fold_add_eq_sum k.size fun j => k[j] * sample (x + j - k.size / 2)]
  congr 1
  funext j hj acc
  rw [if_pos (hcovers j hj)]
  rfl

/-- A line grown by at least the radius of the kernel holds the kernel wherever it is centred on
the old line. -/
theorem covers_grown {k : Kernel} {r pad n x : Nat} (hk : k.size = 2 * r + 1) (hpad : r ≤ pad)
    (hx : x < n) : k.Covers (n + 2 * pad) (x + pad) := by
  intro j hj
  omega

/-- A byte with the whole weight is that byte. -/
theorem toByte_unit_mul (v : UInt8) : toByte (unit * v.toNat) = v := by
  have hv := v.toNat_lt
  refine UInt8.toNat_inj.mp ?_
  rw [toNat_toByte, unit]
  omega

/-- The weights of a kernel come to one, so a line of equal samples keeps its value. -/
theorem toByte_edgeSum_const {k : Kernel} (hunit : ∑ j : Fin k.size, k[j] = unit) (n x : Nat)
    (v : UInt8) : toByte (k.edgeSum n (fun _ => v.toNat) x) = v := by
  rw [edgeSum, ← Finset.sum_mul, hunit, toByte_unit_mul]

/-- The kernel of radius zero leaves every sample as it is. -/
theorem toByte_sumAt_unit {n x : Nat} (hx : x < n) (line : Nat → UInt8) :
    toByte (sumAt #[unit] n (fun x => (line x).toNat) x) = line x := by
  have hcovers : Covers #[unit] (n + 2 * 0) (x + 0) := covers_grown rfl (Nat.le_refl 0) hx
  have hsum := sumAt_eq_sum hcovers fun x => (line x).toNat
  exact (congrArg toByte (hsum.trans (Fin.sum_univ_one _))).trans (toByte_unit_mul (line x))

end Kernel

namespace Buffer

/-! ### Growing and cutting -/

/-- A position of the grown line stands for the nearest sample of the old line. -/
theorem clampIndex_eq_edgeIndex (n pad r i : Nat) :
    clampIndex n pad (i + pad - r) = edgeIndex n (i - r) := by
  have hmin : clampIndex n pad (i + pad - r) = min (i + pad - r - pad) (n - 1) := rfl
  rw [hmin, edgeIndex]
  omega

@[simp] theorem size_padEdges (src : Buffer) (w h pad : Nat) :
    (src.padEdges w h pad).size = 4 * ((w + 2 * pad) * (h + 2 * pad)) :=
  size_ofPixels ..

@[simp] theorem size_crop (src : Buffer) (sw pad w h : Nat) :
    (src.crop sw pad w h).size = 4 * (w * h) :=
  size_ofPixels ..

/-- Row and column of a place, and that it is one. -/
theorem place_spec {w h x y : Nat} (hx : x < w) (hy : y < h) :
    y * w + x < w * h ∧ (y * w + x) / w = y ∧ (y * w + x) % w = x := by
  have hw : 0 < w := Nat.zero_lt_of_lt hx
  refine ⟨place_lt hx hy, ?_, ?_⟩
  · rw [Nat.mul_comm, Nat.mul_add_div hw, Nat.div_eq_of_lt hx, Nat.add_zero]
  · rw [Nat.mul_comm, Nat.mul_add_mod, Nat.mod_eq_of_lt hx]

theorem pixelAt_padEdges (src : Buffer) {w h pad x y : Nat} (hx : x < w + 2 * pad)
    (hy : y < h + 2 * pad) :
    (src.padEdges w h pad).pixelAt (y * (w + 2 * pad) + x)
      = src.pixelAt (clampIndex h pad y * w + clampIndex w pad x) := by
  obtain ⟨hlt, hdiv, hmod⟩ := place_spec hx hy
  rw [padEdges, pixelAt_ofPixels _ _ hlt, hdiv, hmod]

theorem pixelAt_crop (src : Buffer) (sw pad : Nat) {w h x y : Nat} (hx : x < w) (hy : y < h) :
    (src.crop sw pad w h).pixelAt (y * w + x)
      = src.pixelAt ((y + pad) * sw + (x + pad)) := by
  obtain ⟨hlt, hdiv, hmod⟩ := place_spec hx hy
  rw [crop, pixelAt_ofPixels _ _ hlt, hdiv, hmod, Nat.add_assoc, Nat.add_comm pad x]

/-! ### The blur that goes on beyond the sides -/

/-- The convolution of a picture that goes on beyond its sides: the picture is grown, convolved,
and cut back. -/
def blurWithin (src : Buffer) (w h pad : Nat) (k : Kernel) : Buffer :=
  ((src.padEdges w h pad).convolve (w + 2 * pad) (h + 2 * pad) k).crop (w + 2 * pad) pad w h

/-- A channel of the pixel in column `x` of row `y`, once the rows have been blurred. -/
def edgeRow (src : Buffer) (w : Nat) (k : Kernel) (c : Pixel.Channel) (x y : Nat) : UInt8 :=
  Kernel.toByte (k.edgeSum w (fun x' => ((src.pixelAt (y * w + x')).channel c).toNat) x)

/-- A channel of the pixel in column `x` of row `y`, once the columns have been blurred as well. -/
def edgeColumn (src : Buffer) (w h : Nat) (k : Kernel) (c : Pixel.Channel) (x y : Nat) : UInt8 :=
  Kernel.toByte (k.edgeSum h (fun y' => (src.edgeRow w k c x y').toNat) y)

section Within

variable {src : Buffer} {w h pad r : Nat} {k : Kernel}

/-- In the columns of the picture, the rows of the grown picture are blurred as the rows they were
stretched from. -/
theorem channel_convolveRows_padEdges (hk : k.size = 2 * r + 1) (hpad : r ≤ pad) {x y : Nat}
    (hx : x < w) (hy : y < h + 2 * pad) (c : Pixel.Channel) :
    (((src.padEdges w h pad).convolveRows (w + 2 * pad) (h + 2 * pad) k).pixelAt
        (y * (w + 2 * pad) + (x + pad))).channel c
      = src.edgeRow w k c x (clampIndex h pad y) := by
  have hcolumn : x + pad < w + 2 * pad := by omega
  obtain ⟨hlt, hdiv, hmod⟩ := place_spec hcolumn hy
  have hradius : k.size / 2 = r := by omega
  rw [channel_convolveRows _ _ _ _ hlt, hdiv, hmod,
    Kernel.sumAt_eq_sum (Kernel.covers_grown hk hpad hx), edgeRow, Kernel.edgeSum, hradius]
  refine congrArg Kernel.toByte (Finset.sum_congr rfl fun j _ => ?_)
  have hj := j.isLt
  have htap : x + pad + j - r < w + 2 * pad := by omega
  have hnearest : clampIndex w pad (x + pad + j - r) = edgeIndex w (x + j - r) := by
    rw [Nat.add_right_comm, clampIndex_eq_edgeIndex, Int.natCast_add]
  rw [pixelAt_padEdges _ htap hy, hnearest]

/-- **Growing, convolving and cutting** is convolving the picture that goes on beyond its sides. -/
theorem channel_blurWithin (hk : k.size = 2 * r + 1) (hpad : r ≤ pad) {x y : Nat} (hx : x < w)
    (hy : y < h) (c : Pixel.Channel) :
    ((src.blurWithin w h pad k).pixelAt (y * w + x)).channel c = src.edgeColumn w h k c x y := by
  have hcolumn : x + pad < w + 2 * pad := by omega
  have hrow : y + pad < h + 2 * pad := by omega
  obtain ⟨hlt, hdiv, hmod⟩ := place_spec hcolumn hrow
  have hradius : k.size / 2 = r := by omega
  rw [blurWithin, pixelAt_crop _ _ _ hx hy, convolve, channel_convolveColumns _ _ _ _ hlt, hdiv,
    hmod, Kernel.sumAt_eq_sum (Kernel.covers_grown hk hpad hy), edgeColumn, Kernel.edgeSum, hradius]
  refine congrArg Kernel.toByte (Finset.sum_congr rfl fun j _ => ?_)
  have hj := j.isLt
  have htap : y + pad + j - r < h + 2 * pad := by omega
  have hnearest : clampIndex h pad (y + pad + j - r) = edgeIndex h (y + j - r) := by
    rw [Nat.add_right_comm, clampIndex_eq_edgeIndex, Int.natCast_add]
  rw [channel_convolveRows_padEdges hk hpad hx htap, hnearest]

theorem size_blurWithin (src : Buffer) (w h pad : Nat) (k : Kernel) :
    (src.blurWithin w h pad k).size = 4 * (w * h) :=
  size_crop ..

/-- A picture of one colour stays as it is. -/
theorem blurWithin_ofPixels_const (hw : 0 < w) (hh : 0 < h) (hk : k.size = 2 * r + 1)
    (hpad : r ≤ pad) (hunit : ∑ j : Fin k.size, k[j] = Kernel.unit) (color : Pixel) :
    (ofPixels (w * h) fun _ => color).blurWithin w h pad k = ofPixels (w * h) fun _ => color := by
  -- both sums run over samples of the one colour, since the nearest pixel is one of the picture
  have hrow (c : Pixel.Channel) (x : Nat) {y : Nat} (hy : y < h) :
      (ofPixels (w * h) fun _ => color).edgeRow w k c x y = color.channel c := by
    rw [edgeRow, Kernel.edgeSum]
    refine Eq.trans (congrArg Kernel.toByte (Finset.sum_congr rfl fun j _ => ?_))
      (Kernel.toByte_edgeSum_const hunit w x (color.channel c))
    rw [pixelAt_ofPixels _ _ (place_lt (edgeIndex_lt hw _) hy)]
  refine ext_place (size_blurWithin ..) (size_ofPixels ..) fun x hx y hy c => ?_
  rw [pixelAt_ofPixels _ _ (place_lt hx hy), channel_blurWithin hk hpad hx hy, edgeColumn,
    Kernel.edgeSum]
  refine Eq.trans (congrArg Kernel.toByte (Finset.sum_congr rfl fun j _ => ?_))
    (Kernel.toByte_edgeSum_const hunit h y (color.channel c))
  rw [hrow c _ (edgeIndex_lt hh _)]

end Within

end Buffer

/-! ### The kernels of small deviations -/

namespace Kernel

@[simp] theorem size_quantize {α : Type} [Scalar α] (weights : Array α) :
    (quantize weights).size = weights.size := by
  rw [quantize, Array.size_modify, Array.size_map]

theorem le_unit_of_mem_quantize {α : Type} [Scalar α] {weights : Array α} {q : Nat}
    (hq : q ∈ quantize weights) : q ≤ unit := by
  have hhold (z : Int) : hold z ≤ unit := Nat.min_le_left ..
  obtain ⟨i, hi, rfl⟩ := Array.mem_iff_getElem.mp hq
  simp only [quantize, Array.getElem_modify, Array.getElem_map]
  split
  next => exact hhold _
  next => exact hhold _

@[simp] theorem size_bell (radius : Nat) (sigma : Float) :
    (bell radius sigma).size = 2 * radius + 1 := by
  rw [bell, Array.size_ofFn]

/-- A deviation that is a positive number has a kernel of every radius. -/
theorem exists_gaussian_eq_ok {sigma : Float32} (hfinite : sigma.isFinite = true)
    (hpos : ¬ sigma ≤ 0.0) (radius : Nat) :
    ∃ k, gaussian radius sigma = .ok k ∧ k.size = 2 * radius + 1 := by
  rw [gaussian]
  split
  next hradius => exact ⟨#[unit], rfl, by rw [hradius]; rfl⟩
  next =>
    rw [if_neg (by simp [hfinite, hpos])]
    exact ⟨_, rfl, by rw [size_quantize, size_bell]⟩

end Kernel

namespace Buffer

theorem convolve_unit {src : Buffer} {w h : Nat} (hsize : src.size = w * h * 4) :
    src.convolve w h #[Kernel.unit] = src := by
  refine ext_pixelAt (by rw [size_convolve, hsize]) (by rw [size_convolve]; omega) fun p hp => ?_
  rw [pixelCount, size_convolve, Nat.mul_div_cancel _ (by decide)] at hp
  have hcolumn : p % w < w := Nat.mod_lt p (Nat.pos_of_mul_pos_right (Nat.zero_lt_of_lt hp))
  have hrow : p / w < h := Nat.div_lt_of_lt_mul hp
  have hplace : p / w * w + p % w = p := by rw [Nat.mul_comm, Nat.div_add_mod]
  refine Pixel.ext_channel fun c => ?_
  rw [convolve, channel_convolveColumns _ _ _ _ hp, Kernel.toByte_sumAt_unit hrow
    (fun y => ((src.convolveRows w h #[Kernel.unit]).pixelAt (y * w + p % w)).channel c), hplace,
    channel_convolveRows _ _ _ _ hp, Kernel.toByte_sumAt_unit hcolumn
    (fun x => (src.pixelAt (p / w * w + x)).channel c), hplace]

theorem exactBlur_eq_ok {src : Buffer} {w h radius : Nat} {sigma : Float32} {k : Kernel}
    (hword : w * h * 4 < Word.count64) (hsize : src.size = w * h * 4)
    (hk : Kernel.gaussian radius sigma = .ok k) :
    src.exactBlur w h radius sigma = .ok (src.convolve w h k) := by
  rw [exactBlur, if_neg (Nat.not_le.mpr hword), if_neg (not_not.mpr hsize)]
  split
  next hradius =>
    subst hradius
    cases hk
    rw [convolve_unit hsize]
  next => rw [hk]; rfl

end Buffer

/-- A deviation that a blur takes: a number that is not negative, and once it is held above zero
there are kernels for it. -/
structure IsDeviation (sigma : Float32) : Prop where
  isFinite : sigma.isFinite = true
  nonneg : ¬ sigma < 0.0
  isFinite_held : (Scalar.greater sigma 0.1).isFinite = true
  pos_held : ¬ Scalar.greater sigma 0.1 ≤ 0.0

/-- The deviations that a scene can name, by evaluating every one of them: what they are, which ones
the exact kernel is for, and how far they reach. -/
private theorem forall_deviation : ∀ n < 129,
    let sigma := (UInt32.ofNat n).toFloat32
    (sigma.isFinite = true ∧ ¬ sigma < 0.0 ∧ (Scalar.greater sigma 0.1).isFinite = true ∧
      ¬ Scalar.greater sigma 0.1 ≤ 0.0) ∧
    (sigma < Buffer.boxDeviation ↔ n < 2) ∧ blurReach sigma = 3 * n := by
  decide +kernel

section Pixels

variable {pixels : UInt32}

private theorem deviation_of_pixels (hpixels : pixels ≤ 128) :
    IsDeviation pixels.toFloat32 ∧ (pixels.toFloat32 < Buffer.boxDeviation ↔ pixels < 2) ∧
      blurReach pixels.toFloat32 = 3 * pixels.toNat := by
  have hlt : pixels.toNat < 129 := Nat.lt_succ_of_le (UInt32.le_iff_toNat_le.mp hpixels)
  obtain ⟨⟨h1, h2, h3, h4⟩, hexact, hreach⟩ := forall_deviation pixels.toNat hlt
  rw [UInt32.ofNat_toNat] at h1 h2 h3 h4 hexact hreach
  have hsmall : pixels.toNat < 2 ↔ pixels < 2 := (UInt32.lt_iff_toNat_lt (b := 2)).symm
  exact ⟨⟨h1, h2, h3, h4⟩, hexact.trans hsmall, hreach⟩

theorem isDeviation_of_pixels (hpixels : pixels ≤ 128) : IsDeviation pixels.toFloat32 :=
  (deviation_of_pixels hpixels).1

theorem lt_boxDeviation_iff (hpixels : pixels ≤ 128) :
    pixels.toFloat32 < Buffer.boxDeviation ↔ pixels < 2 :=
  (deviation_of_pixels hpixels).2.1

theorem blurReach_eq (hpixels : pixels ≤ 128) : blurReach pixels.toFloat32 = 3 * pixels.toNat :=
  (deviation_of_pixels hpixels).2.2

theorem blurReach_le (hpixels : pixels ≤ 128) : blurReach pixels.toFloat32 ≤ 384 := by
  have hle : pixels.toNat ≤ 128 := UInt32.le_iff_toNat_le.mp hpixels
  rw [blurReach_eq hpixels]
  omega

end Pixels

namespace Buffer

/-- **A deviation below two** is handled by a kernel that reaches as far as the picture is grown. -/
theorem paddedBlur_eq_ok {pixels : UInt32} (hpixels : pixels < 2) {w h reach : Nat}
    (hreach : blurReach pixels.toFloat32 = reach)
    (hword : (w + 2 * reach) * (h + 2 * reach) * 4 < Word.count64) (src : Buffer) :
    ∃ k, Kernel.gaussian reach (Scalar.greater pixels.toFloat32 0.1) = .ok k ∧
      k.size = 2 * reach + 1 ∧
      ∀ adjust, src.paddedBlur w h pixels adjust = .ok
        ((adjust ((src.padEdges w h reach).convolve (w + 2 * reach) (h + 2 * reach) k)).crop
          (w + 2 * reach) reach w h) := by
  have hpixels' : pixels ≤ 128 := by
    rw [UInt32.le_iff_toNat_le]
    exact Nat.le_trans (Nat.le_of_lt (UInt32.lt_iff_toNat_lt.mp hpixels)) (by decide)
  obtain ⟨hfinite, hnonneg, hfinite', hpos⟩ := isDeviation_of_pixels hpixels'
  have hexact : pixels.toFloat32 < boxDeviation := (lt_boxDeviation_iff hpixels').mpr hpixels
  obtain ⟨k, hk, hksize⟩ := Kernel.exists_gaussian_eq_ok hfinite' hpos reach
  refine ⟨k, hk, hksize, fun adjust => ?_⟩
  rw [paddedBlur, hreach, gaussianBlur, if_neg (by simp [hfinite, hnonneg]), if_pos hexact, hreach,
    exactBlur_eq_ok hword (by rw [size_padEdges]; omega) hk]
  rfl

/-- **Blurring does not reach beyond the edges.** A picture of `w` by `h` pixels that is grown,
convolved with a kernel whose radius is at most the border, and cut back has its old size, and
every channel of every pixel is the rounded sum over a column of rounded sums over rows, where a
tap beside the picture takes the nearest pixel of the picture. No tap is skipped for any pixel that
is kept, and a picture of one colour comes back as it was if the weights come to one. A blur whose
deviation is below two grows the picture by the very radius of its kernel, if the bytes of the grown
picture can be counted. -/
theorem edge_padded_blur {src : Buffer} {w h : Nat} (hw : 0 < w) (hh : 0 < h)
    (hsrc : src.size = 4 * (w * h)) :
    (∀ (pad r : Nat) (k : Kernel), k.size = 2 * r + 1 → r ≤ pad →
      (src.blurWithin w h pad k).size = 4 * (w * h) ∧
      (∀ x < w, ∀ y < h, ∀ c,
        ((src.blurWithin w h pad k).pixelAt (y * w + x)).channel c = src.edgeColumn w h k c x y ∧
          k.Covers (w + 2 * pad) (x + pad) ∧ k.Covers (h + 2 * pad) (y + pad)) ∧
      (∑ j : Fin k.size, k[j] = Kernel.unit →
        ∀ color, (∀ p < w * h, src.pixelAt p = color) → src.blurWithin w h pad k = src)) ∧
    ∀ (pixels : UInt32) (reach : Nat), pixels < 2 → blurReach pixels.toFloat32 = reach →
      (w + 2 * reach) * (h + 2 * reach) * 4 < Word.count64 →
      ∃ k, Kernel.gaussian reach (Scalar.greater pixels.toFloat32 0.1) = .ok k ∧
        k.size = 2 * reach + 1 ∧
        ∀ adjust, src.paddedBlur w h pixels adjust = .ok
          ((adjust ((src.padEdges w h reach).convolve (w + 2 * reach) (h + 2 * reach) k)).crop
            (w + 2 * reach) reach w h) := by
  constructor
  · intro pad r k hk hpad
    refine ⟨size_blurWithin .., fun x hx y hy c => ?_, fun hunit color hcolor => ?_⟩
    · exact ⟨channel_blurWithin hk hpad hx hy c, Kernel.covers_grown hk hpad hx,
        Kernel.covers_grown hk hpad hy⟩
    · have hcount : src.pixelCount = w * h := by
        rw [pixelCount]
        omega
      have hconst : src = ofPixels (w * h) fun _ => color := by
        refine ext_pixelAt (by rw [hsrc, size_ofPixels]) (by omega) fun p hp => ?_
        rw [hcount] at hp
        rw [hcolor p hp, pixelAt_ofPixels _ _ hp]
      rw [hconst, blurWithin_ofPixels_const hw hh hk hpad hunit]
  · intro pixels reach hpixels hreach hword
    exact paddedBlur_eq_ok hpixels hreach hword src

/-- A black and a white pixel side by side, with a border wider than the picture. -/
theorem edge_padded_blur_pair :
    let src : Buffer := #[0, 0, 0, 255, 255, 255, 255, 255]
    let k : Kernel := #[16384, 32768, 16384]
    ((src.blurWithin 2 1 2 k).pixelAt 0).channel .red = 64 ∧
      ((src.blurWithin 2 1 2 k).pixelAt 1).channel .red = 191 ∧
      blurWithin #[7, 7, 7, 9] 1 1 1 k = #[7, 7, 7, 9] ∧
      ∃ k, Kernel.gaussian 3 (Scalar.greater (UInt32.toFloat32 1) 0.1) = .ok k ∧ k.size = 7 ∧
        src.paddedBlur 2 1 1 id = .ok (src.blurWithin 2 1 3 k) := by
  intro src k
  have hpair := @edge_padded_blur src 2 1 (by decide) (by decide) rfl
  have hsingle := @edge_padded_blur #[7, 7, 7, 9] 1 1 (by decide) (by decide) rfl
  have hkernel := hpair.1 2 1 k rfl (by decide)
  have hreach : blurReach (UInt32.toFloat32 1) = 3 := blurReach_eq (by decide)
  obtain ⟨k', hk', hsize, hblur⟩ := hpair.2 1 3 (by decide) hreach (by decide)
  refine ⟨?_, ?_, ?_, k', hk', hsize, (hblur id).trans ?_⟩
  · exact (hkernel.2.1 0 (by decide) 0 (by decide) .red).1.trans (by decide)
  · exact (hkernel.2.1 1 (by decide) 0 (by decide) .red).1.trans (by decide)
  · exact (hsingle.1 1 1 k rfl (by decide)).2.2 (by decide) ⟨7, 7, 7, 9⟩ (by decide)
  · rw [id, blurWithin]

end Buffer

end SceneCanvas
