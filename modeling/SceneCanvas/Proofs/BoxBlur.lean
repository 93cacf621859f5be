import Mathlib.Data.Rat.Floor
import Mathlib.Tactic.Linarith
import SceneCanvas.Proofs.BoxLines
import SceneCanvas.Proofs.BoxSize
import SceneCanvas.Proofs.EdgePadding

/-!
# Box blurs that go on beyond the edges

Computed exactly, three box passes along each axis of a grown picture are a convolution: in the
part that is cut out no window has met the side of the grown picture, so the passes average a
picture that goes on beyond its sides for ever, and averages of such a picture are weighted sums.
Each axis has the same kernel. The windows of even boxes lean to one side, yet the kernel is
symmetric, since turning all three over gives the same three in another order.

* `Buffer.boxBlur_eq`: the blur is the passes, over any scalars, and then a rounding to bytes.
* `Buffer.sampleOf_averagesWithin`: growing the picture and running the passes, as one equation.
* `Buffer.edgeAverage_mirrorAcross` and `Buffer.edgeAverage_mirrorDown`: a symmetric kernel does
  not tell left from right.
* `Buffer.box_blur_is_convolution` puts everything together, with the passes one by one, the
  kernels of all boxes, uniform pictures and mirrored ones.
-/

namespace SceneCanvas

open BoxPass

namespace Buffer

/-! ### Averages before they are rounded -/

/-- The averages along the rows, and then along the columns. -/
def boxAverage (α : Type) [Scalar α] (src : Buffer) (w h : Nat) (passes : List BoxPass) :
    Array α :=
  columns passes (rows passes (src.map Scalar.ofByte) w h) w h

/-- An average as it is kept in a picture. -/
def roundedByte {α : Type} [Scalar α] (v : α) : UInt8 :=
  Scalar.toByte (Scalar.clamp 0.0 255.0 (Scalar.round v))

/-- The blur computes averages and rounds them once, at the end. -/
theorem boxBlur_eq (src : Buffer) (w h : Nat) (passes : List BoxPass) :
    src.boxBlur w h passes = (src.boxAverage Float w h passes).map roundedByte := rfl

/-- The exact averages of the grown picture. -/
def averagesWithin (src : Buffer) (w h pad : Nat) (passes : List BoxPass) : Array ℚ :=
  (src.padEdges w h pad).boxAverage ℚ (w + 2 * pad) (h + 2 * pad) passes

/-- The blur that averages exactly: the picture is grown, averaged, rounded, and cut back. -/
def boxBlurWithin (src : Buffer) (w h pad : Nat) (passes : List BoxPass) : Buffer :=
  crop ((src.averagesWithin w h pad passes).map roundedByte) (w + 2 * pad) pad w h

/-- A channel of the picture that goes on beyond its sides, in column `x` of row `y`. -/
def edgeValue (src : Buffer) (w h : Nat) (c : Pixel.Channel) (x y : ℤ) : ℚ :=
  ((src.pixelAt (edgeIndex h y * w + edgeIndex w x)).channel c).toNat

/-- The weighted sum of the picture that goes on beyond its sides, centred at column `x` of
row `y`, for weights that end `r` places from the centre. -/
def edgeAverage (src : Buffer) (w h : Nat) (weight : ℤ → ℚ) (r : Nat) (c : Pixel.Channel)
    (x y : ℤ) : ℚ :=
  ∑ i ∈ around r r, ∑ j ∈ around r r,
    weight i * weight j * src.edgeValue w h c (x + i) (y + j)

section Within

variable {w h pad : Nat} {passes : List BoxPass}

theorem getD_map_ofByte (b : Buffer) {k : Nat} (hk : k < b.size) :
    (b.map (Scalar.ofByte : UInt8 → ℚ)).getD k 0.0 = (b.byteAt k).toNat := by
  rw [Array.getD_eq_getD_getElem?, Array.getElem?_map, byteAt_eq, Array.getElem?_eq_getElem hk]
  rfl

theorem sampleOf_padEdges (src : Buffer) (c : Pixel.Channel) {x y : Nat} (hx : x < w + 2 * pad)
    (hy : y < h + 2 * pad) :
    sampleOf ((src.padEdges w h pad).map Scalar.ofByte) ((w + 2 * pad) * 4) 4 y c.index x
      = src.edgeValue w h c (x - pad) (y - pad) := by
  have hplace : y * ((w + 2 * pad) * 4) + c.index + x * 4
      = 4 * (y * (w + 2 * pad) + x) + c.index := by ring
  have hlt := place_lt hx hy
  have hc := c.index_lt
  have hcolumn := clampIndex_eq_edgeIndex w pad pad x
  have hrow := clampIndex_eq_edgeIndex h pad pad y
  rw [Nat.add_sub_cancel] at hcolumn hrow
  rw [sampleOf, hplace, getD_map_ofByte _ (by rw [size_padEdges]; omega), ← channel_pixelAt,
    pixelAt_padEdges _ hx hy, hcolumn, hrow, edgeValue]

@[simp] theorem size_averagesWithin (src : Buffer) (w h pad : Nat) (passes : List BoxPass) :
    (src.averagesWithin w h pad passes).size = 4 * ((w + 2 * pad) * (h + 2 * pad)) := by
  rw [averagesWithin, boxAverage, columns, size_foldl_lines, rows, size_foldl_lines,
    Array.size_map, size_padEdges]

@[simp] theorem size_boxBlurWithin (src : Buffer) (w h pad : Nat) (passes : List BoxPass) :
    (src.boxBlurWithin w h pad passes).size = 4 * (w * h) :=
  size_crop ..

variable (hpasses : Balanced passes) (hreach : leftReach passes ≤ pad)

include hpasses hreach

/-- In the columns of the picture, the rows of the grown picture have the averages of rows that go
on for ever. -/
theorem sampleOf_rows_padEdges (src : Buffer) (c : Pixel.Channel) {x y : Nat} (hx : x < w)
    (hy : y < h + 2 * pad) :
    sampleOf (rows passes ((src.padEdges w h pad).map Scalar.ofByte) (w + 2 * pad) (h + 2 * pad))
        ((w + 2 * pad) * 4) 4 y c.index (x + pad)
      = averageAll passes (fun x' => src.edgeValue w h c x' (y - pad)) x := by
  have hsize : ((src.padEdges w h pad).map (Scalar.ofByte : UInt8 → ℚ)).size
      = 4 * ((h + 2 * pad) * (w + 2 * pad)) := by
    rw [Array.size_map, size_padEdges, Nat.mul_comm (w + 2 * pad)]
  exact sampleOf_foldl_lines_grown .rows hpasses.left_lt_size hreach
    (hpasses.rightReach_eq.trans_le hreach) hsize hy c.index_lt _
    (fun i hi => sampleOf_padEdges src c hi hy) hx

/-- **Growing and averaging** is averaging the picture that goes on beyond its sides, first along
its rows and then along its columns. -/
theorem sampleOf_averagesWithin (src : Buffer) (c : Pixel.Channel) {x y : Nat} (hx : x < w)
    (hy : y < h) :
    sampleOf (src.averagesWithin w h pad passes) 4 ((w + 2 * pad) * 4) (x + pad) c.index (y + pad)
      = averageAll passes
          (fun y' => averageAll passes (fun x' => src.edgeValue w h c x' y') x) y := by
  have hsize : (rows passes ((src.padEdges w h pad).map (Scalar.ofByte : UInt8 → ℚ)) (w + 2 * pad)
      (h + 2 * pad)).size = 4 * ((w + 2 * pad) * (h + 2 * pad)) := by
    rw [rows, size_foldl_lines, Array.size_map, size_padEdges]
  refine sampleOf_foldl_lines_grown .columns hpasses.left_lt_size hreach
    (hpasses.rightReach_eq.trans_le hreach) hsize (by omega) c.index_lt
    (fun y' => averageAll passes (fun x' => src.edgeValue w h c x' y') x) (fun i hi => ?_) hy
  -- a sample of a column is a sample of a row
  rw [← sampleOf_rows_padEdges hpasses hreach src c hx hi, sampleOf, sampleOf]
  refine congrArg (Array.getD _ · 0.0) ?_
  ring

omit hreach in
/-- Averages along both axes are weighted sums. -/
theorem averageAll_edgeValue (src : Buffer) (w h : Nat) (c : Pixel.Channel) (x y : ℤ) :
    averageAll passes (fun y' => averageAll passes (fun x' => src.edgeValue w h c x' y') x) y
      = src.edgeAverage w h (kernel passes) (leftReach passes) c x y := by
  rw [averageAll_eq_sum hpasses.left_lt_size, edgeAverage, Finset.sum_comm, hpasses.rightReach_eq]
  refine Finset.sum_congr rfl fun j _ => ?_
  rw [averageAll_eq_sum hpasses.left_lt_size, hpasses.rightReach_eq, Finset.mul_sum]
  refine Finset.sum_congr rfl fun i _ => ?_
  ring

/-- **Before it is rounded**, a channel of a pixel that is kept is the weighted sum of the picture
that goes on beyond its sides. -/
theorem getElem?_averagesWithin (src : Buffer) (c : Pixel.Channel) {x y : Nat} (hx : x < w)
    (hy : y < h) :
    (src.averagesWithin w h pad passes)[4 * ((y + pad) * (w + 2 * pad) + (x + pad)) + c.index]?
      = some (src.edgeAverage w h (kernel passes) (leftReach passes) c x y) := by
  have hplace : (x + pad) * 4 + c.index + (y + pad) * ((w + 2 * pad) * 4)
      = 4 * ((y + pad) * (w + 2 * pad) + (x + pad)) + c.index := by ring
  have hcolumn : x + pad < w + 2 * pad := by omega
  have hrow : y + pad < h + 2 * pad := by omega
  have hlt := place_lt hcolumn hrow
  have hc := c.index_lt
  have hsample := sampleOf_averagesWithin hpasses hreach src c hx hy
  rw [averageAll_edgeValue hpasses, sampleOf, hplace, Array.getD_eq_getD_getElem?,
    Array.getElem?_eq_getElem (by rw [size_averagesWithin]; omega), Option.getD_some] at hsample
  rw [Array.getElem?_eq_getElem (by rw [size_averagesWithin]; omega), hsample]

theorem channel_boxBlurWithin (src : Buffer) (c : Pixel.Channel) {x y : Nat} (hx : x < w)
    (hy : y < h) :
    ((src.boxBlurWithin w h pad passes).pixelAt (y * w + x)).channel c
      = roundedByte (src.edgeAverage w h (kernel passes) (leftReach passes) c x y) := by
  rw [boxBlurWithin, pixelAt_crop _ _ _ hx hy, channel_pixelAt, byteAt_eq, Array.getElem?_map,
    getElem?_averagesWithin hpasses hreach src c hx hy, Option.map_some, Option.getD_some]

end Within

/-! ### Pictures of one colour -/

/-- Rounding does not change an average that is a byte. -/
theorem roundedByte_natCast (v : UInt8) : roundedByte (v.toNat : ℚ) = v := by
  have hbyte : v.toNat ≤ 255 := Nat.le_of_lt_succ v.toNat_lt
  have hv : (v.toNat : ℚ) ≤ 255 := by exact_mod_cast hbyte
  have hfloor : ⌊(v.toNat : ℚ) + 1 / 2⌋ = v.toNat := by
    rw [Int.floor_eq_iff, Int.cast_natCast]
    constructor
    · linarith
    · linarith
  have hround : Scalar.round (v.toNat : ℚ) = v.toNat :=
    (if_neg (Nat.cast_nonneg _).not_gt).trans (congrArg Int.cast hfloor)
  have hclamp : Scalar.clamp 0.0 255.0 (v.toNat : ℚ) = v.toNat := by
    have hlow : ¬ (v.toNat : ℚ) < 0.0 := by norm_num
    have hmax : (255.0 : ℚ) = 255 := by norm_num
    have hhigh : ¬ 255.0 < (v.toNat : ℚ) := hmax ▸ hv.not_gt
    simp only [Scalar.clamp, Scalar.lt, hlow, hhigh, decide_false]
    rfl
  rw [roundedByte, hround, hclamp]
  simp only [Scalar.toByte, Rat.num_natCast, Rat.den_natCast, Nat.cast_one, Int.tdiv_one,
    Int.toNat_natCast]
  exact (congrArg UInt8.ofNat (Nat.min_eq_right hbyte)).trans UInt8.ofNat_toNat

/-- Weights that come to one leave a value that is the same everywhere. -/
theorem edgeAverage_const {src : Buffer} {w h r : Nat} {weight : ℤ → ℚ}
    (hweight : SymmetricWeights weight r) {c : Pixel.Channel} {v : ℚ}
    (hv : ∀ x y, src.edgeValue w h c x y = v) (x y : ℤ) :
    src.edgeAverage w h weight r c x y = v := by
  calc src.edgeAverage w h weight r c x y
      = ∑ i ∈ around r r, ∑ j ∈ around r r, weight i * weight j * v := by
        simp only [edgeAverage, hv]
    _ = (∑ i ∈ around r r, weight i) * (∑ j ∈ around r r, weight j) * v := by
        rw [Finset.sum_mul_sum, Finset.sum_mul]
        exact Finset.sum_congr rfl fun i _ => (Finset.sum_mul ..).symm
    _ = v := by rw [hweight.sum_eq_one, one_mul, one_mul]

theorem boxBlurWithin_of_uniform {src : Buffer} {w h pad : Nat} {passes : List BoxPass}
    (hpasses : Balanced passes) (hreach : leftReach passes ≤ pad) (hw : 0 < w) (hh : 0 < h)
    (hsrc : src.size = 4 * (w * h)) {color : Pixel} (hcolor : ∀ p < w * h, src.pixelAt p = color) :
    src.boxBlurWithin w h pad passes = src := by
  refine ext_place (size_boxBlurWithin ..) hsrc fun x hx y hy c => ?_
  have hvalue (x y : ℤ) : src.edgeValue w h c x y = (color.channel c).toNat := by
    rw [edgeValue, hcolor _ (place_lt (edgeIndex_lt hw x) (edgeIndex_lt hh y))]
  rw [channel_boxBlurWithin hpasses hreach src c hx hy,
    edgeAverage_const (symmetricWeights_kernel hpasses) hvalue, roundedByte_natCast,
    hcolor _ (place_lt hx hy)]

/-! ### Mirrored pictures -/

/-- The picture with its left and its right side exchanged. -/
def mirrorAcross (src : Buffer) (w h : Nat) : Buffer :=
  ofPixels (w * h) fun p => src.pixelAt (p / w * w + (w - 1 - p % w))

/-- The picture turned upside down. -/
def mirrorDown (src : Buffer) (w h : Nat) : Buffer :=
  ofPixels (w * h) fun p => src.pixelAt ((h - 1 - p / w) * w + p % w)

section Mirror

variable {w h : Nat}

theorem pixelAt_mirrorAcross (src : Buffer) {x y : Nat} (hx : x < w) (hy : y < h) :
    (src.mirrorAcross w h).pixelAt (y * w + x) = src.pixelAt (y * w + (w - 1 - x)) := by
  obtain ⟨hlt, hdiv, hmod⟩ := place_spec hx hy
  rw [mirrorAcross, pixelAt_ofPixels _ _ hlt, hdiv, hmod]

theorem pixelAt_mirrorDown (src : Buffer) {x y : Nat} (hx : x < w) (hy : y < h) :
    (src.mirrorDown w h).pixelAt (y * w + x) = src.pixelAt ((h - 1 - y) * w + x) := by
  obtain ⟨hlt, hdiv, hmod⟩ := place_spec hx hy
  rw [mirrorDown, pixelAt_ofPixels _ _ hlt, hdiv, hmod]

/-- The nearest sample of a line that is turned over. -/
theorem edgeIndex_reflect {n : Nat} (hn : 0 < n) (i : ℤ) :
    edgeIndex n ((n - 1 : Nat) - i) = n - 1 - edgeIndex n i := by
  rw [edgeIndex, edgeIndex]
  omega

theorem edgeValue_mirrorAcross (src : Buffer) (hw : 0 < w) (hh : 0 < h) (c : Pixel.Channel)
    (x y : ℤ) :
    (src.mirrorAcross w h).edgeValue w h c x y = src.edgeValue w h c ((w - 1 : Nat) - x) y := by
  rw [edgeValue, pixelAt_mirrorAcross src (edgeIndex_lt hw x) (edgeIndex_lt hh y),
    ← edgeIndex_reflect hw, edgeValue]

theorem edgeValue_mirrorDown (src : Buffer) (hw : 0 < w) (hh : 0 < h) (c : Pixel.Channel)
    (x y : ℤ) :
    (src.mirrorDown w h).edgeValue w h c x y = src.edgeValue w h c x ((h - 1 : Nat) - y) := by
  rw [edgeValue, pixelAt_mirrorDown src (edgeIndex_lt hw x) (edgeIndex_lt hh y),
    ← edgeIndex_reflect hh, edgeValue]

/-- A sum around the origin can be run through backwards. -/
theorem sum_around_neg (r : Nat) (f : ℤ → ℚ) :
    ∑ i ∈ around r r, f (-i) = ∑ i ∈ around r r, f i := by
  have hmem (i : ℤ) (hi : i ∈ around r r) : -i ∈ around r r := by
    rw [mem_around] at hi ⊢
    omega
  exact Finset.sum_nbij' (-·) (-·) hmem hmem (fun i _ => neg_neg i) (fun i _ => neg_neg i)
    (fun _ _ => rfl)

variable {r : Nat} {weight : ℤ → ℚ} (hweight : SymmetricWeights weight r)

include hweight

/-- **Symmetric weights do not tell left from right.** -/
theorem edgeAverage_mirrorAcross (src : Buffer) (hw : 0 < w) (hh : 0 < h) (c : Pixel.Channel)
    (x y : ℤ) :
    (src.mirrorAcross w h).edgeAverage w h weight r c x y
      = src.edgeAverage w h weight r c ((w - 1 : Nat) - x) y := by
  rw [edgeAverage, edgeAverage, ← sum_around_neg]
  refine Finset.sum_congr rfl fun i _ => Finset.sum_congr rfl fun j _ => ?_
  have hcolumn : ((w - 1 : Nat) : ℤ) - (x + -i) = (w - 1 : Nat) - x + i := by ring
  rw [hweight.neg, edgeValue_mirrorAcross src hw hh, hcolumn]

/-- Nor do they tell up from down. -/
theorem edgeAverage_mirrorDown (src : Buffer) (hw : 0 < w) (hh : 0 < h) (c : Pixel.Channel)
    (x y : ℤ) :
    (src.mirrorDown w h).edgeAverage w h weight r c x y
      = src.edgeAverage w h weight r c x ((h - 1 : Nat) - y) := by
  rw [edgeAverage, edgeAverage]
  refine Finset.sum_congr rfl fun i _ => ?_
  rw [← sum_around_neg]
  refine Finset.sum_congr rfl fun j _ => ?_
  have hrow : ((h - 1 : Nat) : ℤ) - (y + -j) = (h - 1 : Nat) - y + j := by ring
  rw [hweight.neg, edgeValue_mirrorDown src hw hh, hrow]

end Mirror

section MirroredBlur

variable {w h pad : Nat} {passes : List BoxPass} (hpasses : Balanced passes)
  (hreach : leftReach passes ≤ pad) (hw : 0 < w) (hh : 0 < h)

include hpasses hreach hw hh

theorem boxBlurWithin_mirrorAcross (src : Buffer) :
    (src.mirrorAcross w h).boxBlurWithin w h pad passes
      = (src.boxBlurWithin w h pad passes).mirrorAcross w h := by
  refine ext_place (size_boxBlurWithin ..) (size_ofPixels ..) fun x hx y hy c => ?_
  have hx' : w - 1 - x < w := by omega
  have hcast : ((w - 1 - x : Nat) : ℤ) = (w - 1 : Nat) - x := by omega
  rw [pixelAt_mirrorAcross _ hx hy, channel_boxBlurWithin hpasses hreach _ c hx hy,
    channel_boxBlurWithin hpasses hreach _ c hx' hy,
    edgeAverage_mirrorAcross (symmetricWeights_kernel hpasses) src hw hh, hcast]

theorem boxBlurWithin_mirrorDown (src : Buffer) :
    (src.mirrorDown w h).boxBlurWithin w h pad passes
      = (src.boxBlurWithin w h pad passes).mirrorDown w h := by
  refine ext_place (size_boxBlurWithin ..) (size_ofPixels ..) fun x hx y hy c => ?_
  have hy' : h - 1 - y < h := by omega
  have hcast : ((h - 1 - y : Nat) : ℤ) = (h - 1 : Nat) - y := by omega
  rw [pixelAt_mirrorDown _ hx hy, channel_boxBlurWithin hpasses hreach _ c hx hy,
    channel_boxBlurWithin hpasses hreach _ c hx hy',
    edgeAverage_mirrorDown (symmetricWeights_kernel hpasses) src hw hh, hcast]

end MirroredBlur

/-! ### The blur -/

/-- The picture is grown by at least as much as the boxes reach. -/
theorem leftReach_le_blurReach {pixels : UInt32} (hpixels : pixels ≤ 128) :
    leftReach (triple (sizeFor pixels.toFloat32)) ≤ blurReach pixels.toFloat32 := by
  rw [blurReach_eq hpixels]
  exact leftReach_triple_le (sizeFor_le hpixels)

/-- **Box blurs are symmetric convolutions.** A pass over rows or columns, run with exact numbers,
writes every place of the buffer once, whatever was there before, and what it writes is the mean of
the samples under the window, zeros beside the line included. Along each axis the three passes of a
box of any size are one kernel, which is symmetric: if a picture is grown by at least its reach and
blurred, every channel of every pixel that is cut out is the weighted sum over the picture that goes
on beyond its sides, rounded once. So pictures of one colour are kept, and a mirrored picture is
blurred into the mirrored blur. The blur that runs is the same function of other numbers, and for
every deviation that has box passes it grows the picture far enough. -/
theorem box_blur_is_convolution :
    (∀ (pass : BoxPass) (count n lineStep step : Nat) (src dst : Array ℚ),
      Layout count n lineStep step → src.size = 4 * (count * n) → dst.size = src.size →
      let writes := pass.writes src count n lineStep step
      let written := pass.linesOnto src dst count n lineStep step
      written = writes.foldl put dst ∧ (writes.map Prod.fst).Perm (List.range dst.size) ∧
      written = pass.lines src count n lineStep step ∧
      ∀ l < count, ∀ c < 4, ∀ i < n, written[l * lineStep + c + i * step]?
        = some ((∑ j ∈ Finset.range pass.size,
            onLine n (sampleOf src lineStep step l c) (i - pass.left + j)) / pass.size)) ∧
    (∀ d r : Nat, 1 ≤ d → leftReach (triple d) = r →
      let weight := kernel (triple d)
      SymmetricWeights weight r ∧ rightReach (triple d) = r ∧
      ∀ (src : Buffer) (w h pad : Nat), 0 < w → 0 < h → src.size = 4 * (w * h) → r ≤ pad →
        (∀ x < w, ∀ y < h, ∀ c,
          (src.averagesWithin w h pad (triple d))[
              4 * ((y + pad) * (w + 2 * pad) + (x + pad)) + c.index]?
            = some (src.edgeAverage w h weight r c x y) ∧
          ((src.boxBlurWithin w h pad (triple d)).pixelAt (y * w + x)).channel c
            = roundedByte (src.edgeAverage w h weight r c x y)) ∧
        (∀ color, (∀ p < w * h, src.pixelAt p = color) →
          src.boxBlurWithin w h pad (triple d) = src) ∧
        (src.mirrorAcross w h).boxBlurWithin w h pad (triple d)
          = (src.boxBlurWithin w h pad (triple d)).mirrorAcross w h ∧
        (src.mirrorDown w h).boxBlurWithin w h pad (triple d)
          = (src.boxBlurWithin w h pad (triple d)).mirrorDown w h) ∧
    (∀ (src : Buffer) (w h : Nat) (passes : List BoxPass),
      src.boxBlur w h passes = (src.boxAverage Float w h passes).map roundedByte) ∧
    ∀ pixels : UInt32, 2 ≤ pixels → pixels ≤ 128 → 1 ≤ sizeFor pixels.toFloat32 ∧
      leftReach (triple (sizeFor pixels.toFloat32)) ≤ blurReach pixels.toFloat32 := by
  refine ⟨?_, ?_, boxBlur_eq, fun pixels _ hhigh => ?_⟩
  · intro pass count n lineStep step src dst layout hsrc hdst writes written
    refine ⟨linesOnto_eq_foldl .., ?_, linesOnto_eq_lines pass layout hsrc hdst, ?_⟩
    · rw [hdst, hsrc]
      exact places_perm pass layout src
    · intro l hl c hc i hi
      exact getElem?_linesOnto pass layout src (hdst.trans hsrc) hl hc hi
  · intro d r hd hr weight
    have hpasses := balanced_triple hd
    subst hr
    refine ⟨symmetricWeights_kernel hpasses, hpasses.rightReach_eq, ?_⟩
    intro src w h pad hw hh hsrc hreach
    refine ⟨fun x hx y hy c => ⟨?_, ?_⟩, fun color hcolor => ?_, ?_, ?_⟩
    · exact getElem?_averagesWithin hpasses hreach src c hx hy
    · exact channel_boxBlurWithin hpasses hreach src c hx hy
    · exact boxBlurWithin_of_uniform hpasses hreach hw hh hsrc hcolor
    · exact boxBlurWithin_mirrorAcross hpasses hreach hw hh src
    · exact boxBlurWithin_mirrorDown hpasses hreach hw hh src
  · exact ⟨Nat.le_max_left .., leftReach_le_blurReach hhigh⟩

/-- A black and a white pixel side by side, blurred with an even box. -/
theorem box_blur_is_convolution_pair :
    let src : Buffer := #[0, 0, 0, 255, 255, 255, 255, 255]
    SymmetricWeights (kernel (triple 2)) 2 ∧
      (src.averagesWithin 2 1 2 (triple 2))[4 * (2 * 6 + 2)]? = some 85 ∧
      ((src.boxBlurWithin 2 1 2 (triple 2)).pixelAt 0).channel .red = 85 ∧
      boxBlurWithin #[7, 7, 7, 9] 1 1 3 (triple 2) = #[7, 7, 7, 9] ∧
      boxBlurWithin #[255, 255, 255, 255, 0, 0, 0, 255] 2 1 2 (triple 2)
        = (src.boxBlurWithin 2 1 2 (triple 2)).mirrorAcross 2 1 ∧
      (linesOnto ⟨2, 1⟩ #[8, 8, 8, 8, 4, 4, 4, 4] #[1, 1, 1, 1, 1, 1, 1, 1] 1 2 8 4)[4]? = some 6 ∧
      leftReach (triple (sizeFor (UInt32.toFloat32 2))) ≤ blurReach (UInt32.toFloat32 2) := by
  intro src
  obtain ⟨hpass, hbox, -, hreach⟩ := box_blur_is_convolution
  obtain ⟨hweights, -, hblur⟩ := hbox 2 2 (by decide) rfl
  obtain ⟨hvalues, -, hmirror, -⟩ := hblur src 2 1 2 (by decide) (by decide) rfl (by decide)
  obtain ⟨haverage, hrounded⟩ := hvalues 0 (by decide) 0 (by decide) .red
  have huniform := hblur #[7, 7, 7, 9] 1 1 3 (by decide) (by decide) rfl (by decide)
  obtain ⟨-, -, -, hmean⟩ := hpass ⟨2, 1⟩ 1 2 8 4 #[8, 8, 8, 8, 4, 4, 4, 4]
    #[1, 1, 1, 1, 1, 1, 1, 1] .rows rfl rfl
  have hsum : src.edgeAverage 2 1 (kernel (triple 2)) 2 .red (0 : Nat) (0 : Nat) = 85 := by
    decide +kernel
  refine ⟨hweights, ?_, ?_, ?_, ?_, ?_, (hreach 2 (by decide) (by decide)).2⟩
  · exact haverage.trans (congrArg some hsum)
  · exact hrounded.trans (by rw [hsum]; decide +kernel)
  · exact huniform.2.1 ⟨7, 7, 7, 9⟩ (by decide +kernel)
  · exact hmirror
  · exact (hmean 0 (by decide) 0 (by decide) 1 (by decide)).trans (by decide +kernel)

end Buffer

end SceneCanvas
