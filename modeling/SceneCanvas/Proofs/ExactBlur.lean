import Mathlib
import SceneCanvas.Proofs.BoxBlur
import SceneCanvas.Proofs.Checked

/-!
# Order and symmetry of the exact blur

A sample of a blurred line is the rounded weighted sum of the samples under the kernel. If the
weights come to at most one, the sum is at most the largest of these samples, and since a byte with
the whole weight is that byte, rounding does not lift the sum above it. Both passes of the exact
blur are of this kind, so what holds of one line holds of pictures after two roundings.

* `Kernel.sumAt_le_mass_mul`: a bound on the samples under the kernel bounds their sum.
* `Kernel.sumAt_reflect`: a kernel that reads the same backwards does not tell the ends of a line
  apart, although its taps are skipped at both of them.
* `Kernel.sumAtWord?_eq_some`: sums counted in 64-bit words come to the same.
* `Buffer.channel_convolve`: the two passes as one equation a channel.
* `Buffer.exact_blur_order` puts everything together.
-/

namespace SceneCanvas

/-- Two places of a line are at most `r` apart. -/
def Near (r i j : Nat) : Prop := i ≤ j + r ∧ j ≤ i + r

instance (r i : Nat) : DecidablePred (Near r i) := fun _ => inferInstanceAs (Decidable (_ ∧ _))

/-- An array that reads the same backwards has the same entries at places that mirror each other. -/
theorem getD_of_reverse_eq {α : Type} {a : Array α} (h : a.reverse = a) {i : Nat} (hi : i < a.size)
    (default : α) : a.getD (a.size - 1 - i) default = a.getD i default := by
  have hturned : i < a.reverse.size := by rwa [Array.size_reverse]
  have hreverse : a.reverse[i] = a[i] := by simp only [h]
  rwa [Array.getElem_reverse, Array.getElem_eq_getD default, Array.getElem_eq_getD default]
    at hreverse

/-! ### Weighted sums -/

namespace Kernel

/-- The total weight of a kernel. -/
def mass (k : Kernel) : Nat := ∑ j ∈ Finset.range k.size, k.getD j 0

theorem mass_le_size_mul {k : Kernel} {v : Nat} (h : ∀ q ∈ k, q ≤ v) : k.mass ≤ k.size * v := by
  have hle : k.mass ≤ ∑ _j ∈ Finset.range k.size, v := by
    refine Finset.sum_le_sum fun j hj => ?_
    rw [← Array.getElem_eq_getD (h := Finset.mem_range.mp hj) 0]
    exact h _ (Array.getElem_mem _)
  rwa [Finset.sum_const, Finset.card_range, smul_eq_mul] at hle

/-- Taps that fall beside the line count as zero. -/
theorem sumAt_eq_sum_ite (k : Kernel) (n : Nat) (sample : Nat → Nat) (x : Nat) :
    k.sumAt n sample x = ∑ j ∈ Finset.range k.size,
      if k.size / 2 ≤ x + j ∧ x + j < k.size / 2 + n then
        k.getD j 0 * sample (x + j - k.size / 2)
      else 0 := by
  rw [sumAt, Finset.sum_range, ← fold_add_eq_sum k.size fun j =>
    if k.size / 2 ≤ x + j ∧ x + j < k.size / 2 + n then k.getD j 0 * sample (x + j - k.size / 2)
    else 0]
  congr 1
  funext j hj acc
  dsimp only
  rw [Array.getElem_eq_getD 0]
  split
  next => rfl
  next => rfl

theorem sumAt_congr (k : Kernel) {n : Nat} {f g : Nat → Nat} (h : ∀ i < n, f i = g i) (x : Nat) :
    k.sumAt n f x = k.sumAt n g x :=
  Nat.le_antisymm (k.sumAt_le_sumAt (fun i hi => (h i hi).le) x)
    (k.sumAt_le_sumAt (fun i hi => (h i hi).ge) x)

/-- A bound on the samples under the kernel bounds their weighted sum. -/
theorem sumAt_le_mass_mul {k : Kernel} {n x v : Nat} {sample : Nat → Nat}
    (h : ∀ i < n, Near (k.size / 2) x i → sample i ≤ v) : k.sumAt n sample x ≤ k.mass * v := by
  rw [sumAt_eq_sum_ite, mass, Finset.sum_mul]
  refine Finset.sum_le_sum fun j hj => ?_
  rw [Finset.mem_range] at hj
  split
  next hin => exact Nat.mul_le_mul_left _ (h _ (by omega) ⟨by omega, by omega⟩)
  next => exact Nat.zero_le _

/-- The weighted sum, tap by tap and counted in 64-bit words: there is a result only if every sum on
the way is a word, and the last one still is once half a unit has been added. -/
def sumAtWord? (k : Kernel) (n : Nat) (sample : Nat → Nat) (x : Nat) : Option Nat := do
  let radius := k.size / 2
  let acc ← tryFold k.size (fun j _ acc =>
    if radius ≤ x + j ∧ x + j < radius + n then
      let next := acc + k[j] * sample (x + j - radius)
      if next < Word.count64 then some next else none
    else some acc) 0
  if acc + unit / 2 < Word.count64 then some acc else none

/-- **No sum of bytes is too large**, as long as the weight of the kernel is not. -/
theorem sumAtWord?_eq_some {k : Kernel} (hword : k.mass * 255 + unit / 2 < Word.count64) {n : Nat}
    {sample : Nat → Nat} (hsample : ∀ i < n, sample i ≤ 255) (x : Nat) :
    k.sumAtWord? n sample x = some (k.sumAt n sample x) := by
  -- what the first taps have come to is at most their weight times the largest byte
  have hpart {i : Nat} (hi : i ≤ k.size) : ∑ j ∈ Finset.range i, k.getD j 0 ≤ k.mass :=
    Finset.sum_le_sum_of_subset (Finset.range_mono hi)
  refine bind_eq_some_of_eq (tryFold_eq_some
    (fun i acc => acc ≤ (∑ j ∈ Finset.range i, k.getD j 0) * 255) (Nat.zero_le _)
    fun j hj acc hacc => ?_).1 (if_pos ?_)
  · have hnext := hpart (Nat.succ_le_of_lt hj)
    rw [Finset.sum_range_succ, ← Array.getElem_eq_getD (h := hj) 0] at hnext ⊢
    rw [Nat.add_mul]
    split
    next hin =>
      have htap : k[j] * sample (x + j - k.size / 2) ≤ k[j] * 255 :=
        Nat.mul_le_mul_left _ (hsample _ (by omega))
      exact ⟨if_pos (by omega), Nat.add_le_add hacc htap⟩
    next => exact ⟨rfl, Nat.le_add_right_of_le hacc⟩
  · have hsum := sumAt_le_mass_mul (k := k) (x := x) fun i hi _ => hsample i hi
    exact Nat.lt_of_le_of_lt (Nat.add_le_add_right hsum _) hword

/-- **A kernel that reads the same backwards** does not tell the ends of a line apart. -/
theorem sumAt_reflect {k : Kernel} {r n x : Nat} (hk : k.size = 2 * r + 1) (hpal : k.reverse = k)
    (hx : x < n) (sample : Nat → Nat) :
    k.sumAt n (fun i => sample (n - 1 - i)) x = k.sumAt n sample (n - 1 - x) := by
  rw [sumAt_eq_sum_ite, sumAt_eq_sum_ite, ← Finset.sum_range_reflect]
  refine Finset.sum_congr rfl fun j hj => ?_
  rw [Finset.mem_range] at hj
  rw [getD_of_reverse_eq hpal hj]
  by_cases hin : k.size / 2 ≤ n - 1 - x + j ∧ n - 1 - x + j < k.size / 2 + n
  · have hsample : n - 1 - (x + (k.size - 1 - j) - k.size / 2) = n - 1 - x + j - k.size / 2 := by
      omega
    rw [if_pos hin, if_pos (by omega), hsample]
  · rw [if_neg hin, if_neg (by omega)]

section Mass

variable {k : Kernel} (hmass : k.mass ≤ unit) {n x : Nat}

include hmass

/-- **Blurring a line** gives nothing that is not reached by a sample nearby. -/
theorem exists_near_toByte_sumAt_le (hx : x < n) (line : Nat → UInt8) :
    ∃ i < n, Near (k.size / 2) x i ∧ toByte (k.sumAt n (fun i => (line i).toNat) x) ≤ line i := by
  have hself : x ∈ (Finset.range n).filter (Near (k.size / 2) x) :=
    Finset.mem_filter.mpr ⟨Finset.mem_range.mpr hx, Nat.le_add_right .., Nat.le_add_right ..⟩
  obtain ⟨i, hi, hmax⟩ := Finset.exists_max_image _ (fun i => (line i).toNat) ⟨x, hself⟩
  rw [Finset.mem_filter, Finset.mem_range] at hi
  refine ⟨i, hi.1, hi.2, ?_⟩
  calc toByte (k.sumAt n (fun i => (line i).toNat) x)
      ≤ toByte (k.mass * (line i).toNat) := toByte_le_toByte (sumAt_le_mass_mul fun j hj hnear =>
        hmax j (Finset.mem_filter.mpr ⟨Finset.mem_range.mpr hj, hnear⟩))
    _ ≤ toByte (unit * (line i).toNat) := toByte_le_toByte (Nat.mul_le_mul_right _ hmass)
    _ = line i := toByte_unit_mul _

/-- A sum of bytes can be counted in words, and it is not held when it is rounded. -/
theorem sumAt_unhindered (line : Nat → UInt8) :
    k.sumAtWord? n (fun i => (line i).toNat) x = some (k.sumAt n (fun i => (line i).toNat) x) ∧
      (toByte (k.sumAt n (fun i => (line i).toNat) x)).toNat
        = (k.sumAt n (fun i => (line i).toNat) x + unit / 2) / unit := by
  have hbyte (i : Nat) : (line i).toNat ≤ 255 := Nat.le_of_lt_succ (line i).toNat_lt
  have hunit : unit = 65536 := rfl
  have hword : Word.count64 = 18446744073709551616 := rfl
  have hsum : k.sumAt n (fun i => (line i).toNat) x ≤ k.mass * 255 :=
    sumAt_le_mass_mul fun i _ _ => hbyte i
  refine ⟨sumAtWord?_eq_some (by omega) (fun i _ => hbyte i) x, ?_⟩
  rw [toNat_toByte, hunit]
  omega

end Mass

end Kernel

namespace Buffer

/-! ### The two passes, place by place -/

/-- A channel of the pixel in column `x` of row `y`, once the rows have been blurred. -/
def rowBlur (src : Buffer) (w : Nat) (k : Kernel) (c : Pixel.Channel) (x y : Nat) : UInt8 :=
  Kernel.toByte (k.sumAt w (fun x' => ((src.pixelAt (y * w + x')).channel c).toNat) x)

/-- A channel of the pixel in column `x` of row `y`, once the columns have been blurred as well. -/
def blurAt (src : Buffer) (w h : Nat) (k : Kernel) (c : Pixel.Channel) (x y : Nat) : UInt8 :=
  Kernel.toByte (k.sumAt h (fun y' => (src.rowBlur w k c x y').toNat) y)

section Places

variable {w h x y : Nat} (k : Kernel)

theorem channel_convolve (src : Buffer) (hx : x < w) (hy : y < h) (c : Pixel.Channel) :
    ((src.convolve w h k).pixelAt (y * w + x)).channel c = src.blurAt w h k c x y := by
  obtain ⟨hlt, hdiv, hmod⟩ := place_spec hx hy
  rw [convolve, channel_convolveColumns _ _ _ _ hlt, hdiv, hmod, blurAt]
  refine congrArg Kernel.toByte (k.sumAt_congr (fun y' hy' => ?_) y)
  obtain ⟨hlt', hdiv', hmod'⟩ := place_spec hx hy'
  rw [channel_convolveRows _ _ _ _ hlt', hdiv', hmod', rowBlur]

/-- What is blurred along a row is what lies in it. -/
theorem rowBlur_congr {src src' : Buffer} {c : Pixel.Channel} {y' : Nat}
    (heq : ∀ x < w, (src.pixelAt (y * w + x)).channel c = (src'.pixelAt (y' * w + x)).channel c)
    (x : Nat) : src.rowBlur w k c x y = src'.rowBlur w k c x y' :=
  congrArg Kernel.toByte (k.sumAt_congr (fun i hi => congrArg UInt8.toNat (heq i hi)) x)

theorem blurAt_congr {src src' : Buffer} {c : Pixel.Channel} {x' : Nat}
    (heq : ∀ y < h, src.rowBlur w k c x y = src'.rowBlur w k c x' y) (y : Nat) :
    src.blurAt w h k c x y = src'.blurAt w h k c x' y :=
  congrArg Kernel.toByte (k.sumAt_congr (fun i hi => congrArg UInt8.toNat (heq i hi)) y)

end Places

/-! ### Order -/

/-- A pass whose bytes are sums of bytes keeps the order of pictures. -/
private theorem ofBytes_mono {n : Nat} {f g : Nat → UInt8} (hfg : ∀ i, f i ≤ g i) (i : Nat) :
    (ofBytes n f).byteAt i ≤ (ofBytes n g).byteAt i := by
  by_cases hi : i < n
  · rw [byteAt_ofBytes _ _ hi, byteAt_ofBytes _ _ hi]
    exact hfg i
  · rw [byteAt_of_size_le (by rw [size_ofBytes]; omega)]
    exact UInt8.zero_le

section Order

variable {src src' : Buffer} (hle : ∀ i, src.byteAt i ≤ src'.byteAt i) (w h : Nat) (k : Kernel)

include hle

theorem convolveRows_mono (i : Nat) :
    (src.convolveRows w h k).byteAt i ≤ (src'.convolveRows w h k).byteAt i :=
  ofBytes_mono (fun _ => Kernel.toByte_le_toByte
    (k.sumAt_le_sumAt (fun _ _ => UInt8.le_iff_toNat_le.mp (hle _)) _)) i

theorem convolveColumns_mono (i : Nat) :
    (src.convolveColumns w h k).byteAt i ≤ (src'.convolveColumns w h k).byteAt i :=
  ofBytes_mono (fun _ => Kernel.toByte_le_toByte
    (k.sumAt_le_sumAt (fun _ _ => UInt8.le_iff_toNat_le.mp (hle _)) _)) i

/-- **Of two pictures, the brighter one stays so.** -/
theorem convolve_mono (i : Nat) :
    (src.convolve w h k).byteAt i ≤ (src'.convolve w h k).byteAt i :=
  convolveColumns_mono (convolveRows_mono hle w h k) w h k i

end Order

/-! ### Pictures -/

section Pictures

variable {w h : Nat} {k : Kernel}

/-- A channel of a blurred picture depends on nothing but that channel. -/
theorem channel_convolve_congr {src src' : Buffer} {c : Pixel.Channel}
    (heq : ∀ p < w * h, (src.pixelAt p).channel c = (src'.pixelAt p).channel c) {x y : Nat}
    (hx : x < w) (hy : y < h) :
    ((src.convolve w h k).pixelAt (y * w + x)).channel c
      = ((src'.convolve w h k).pixelAt (y * w + x)).channel c := by
  rw [channel_convolve k src hx hy, channel_convolve k src' hx hy]
  exact blurAt_congr k (fun y hy => rowBlur_congr k (fun x hx => heq _ (place_lt hx hy)) x) y

/-- **Blurring a picture** gives no channel that is not reached by the same channel of a pixel
nearby. -/
theorem exists_near_channel_convolve_le (hmass : k.mass ≤ Kernel.unit) (src : Buffer) {x y : Nat}
    (hx : x < w) (hy : y < h) (c : Pixel.Channel) :
    ∃ x' < w, ∃ y' < h, Near (k.size / 2) x x' ∧ Near (k.size / 2) y y' ∧
      ((src.convolve w h k).pixelAt (y * w + x)).channel c
        ≤ (src.pixelAt (y' * w + x')).channel c := by
  rw [channel_convolve k src hx hy]
  obtain ⟨y', hy', hrow, hcolumns⟩ :=
    Kernel.exists_near_toByte_sumAt_le hmass hy (src.rowBlur w k c x)
  obtain ⟨x', hx', hcolumn, hrows⟩ :=
    Kernel.exists_near_toByte_sumAt_le hmass hx fun x' => (src.pixelAt (y' * w + x')).channel c
  exact ⟨x', hx', y', hy', hcolumn, hrow, UInt8.le_trans hcolumns hrows⟩

section Mirror

variable {r : Nat} (hk : k.size = 2 * r + 1) (hpal : k.reverse = k)

include hk hpal

theorem convolve_mirrorAcross (src : Buffer) :
    (src.mirrorAcross w h).convolve w h k = (src.convolve w h k).mirrorAcross w h := by
  refine ext_place (by rw [size_convolve, Nat.mul_comm]) (size_ofPixels ..) fun x hx y hy c => ?_
  have hx' : w - 1 - x < w := by omega
  rw [pixelAt_mirrorAcross _ hx hy, channel_convolve k _ hx hy, channel_convolve k _ hx' hy]
  refine blurAt_congr k (fun y' hy' => ?_) y
  refine congrArg Kernel.toByte (Eq.trans (k.sumAt_congr (fun i hi => ?_) x)
    (Kernel.sumAt_reflect hk hpal hx fun i => ((src.pixelAt (y' * w + i)).channel c).toNat))
  rw [pixelAt_mirrorAcross _ hi hy']

theorem convolve_mirrorDown (src : Buffer) :
    (src.mirrorDown w h).convolve w h k = (src.convolve w h k).mirrorDown w h := by
  refine ext_place (by rw [size_convolve, Nat.mul_comm]) (size_ofPixels ..) fun x hx y hy c => ?_
  have hy' : h - 1 - y < h := by omega
  rw [pixelAt_mirrorDown _ hx hy, channel_convolve k _ hx hy, channel_convolve k _ hx hy']
  -- turning a picture upside down exchanges its rows, and each is blurred as before
  refine congrArg Kernel.toByte (Eq.trans (k.sumAt_congr (fun i hi => ?_) y)
    (Kernel.sumAt_reflect hk hpal hy fun i => (src.rowBlur w k c x i).toNat))
  refine congrArg UInt8.toNat (rowBlur_congr k (fun x' hx' => ?_) x)
  rw [pixelAt_mirrorDown _ hx' hi]

end Mirror

end Pictures

/-- **Order and symmetry of the exact blur.** Let a kernel have `2 * r + 1` weights that come to at
most one. Then a picture that is brighter in every byte is blurred into one that is. No channel of a
blurred pixel exceeds the largest value that the channel has within `r` columns and `r` rows, so
where everything nearby is transparent the blur is transparent; none of the sums is beyond a 64-bit
word at any tap, and none is held when it is rounded. A channel is blurred without regard to the
others. If the kernel reads the same backwards, then mirrored pictures are blurred into the mirrored
blur. -/
theorem exact_blur_order {r : Nat} {k : Kernel} (hk : k.size = 2 * r + 1)
    (hmass : k.mass ≤ Kernel.unit) (src : Buffer) (w h : Nat) :
    (∀ src' : Buffer, (∀ i, src.byteAt i ≤ src'.byteAt i) →
      ∀ i, (src.convolve w h k).byteAt i ≤ (src'.convolve w h k).byteAt i) ∧
    (∀ x < w, ∀ y < h,
      (∀ c, ∃ x' < w, ∃ y' < h, Near r x x' ∧ Near r y y' ∧
        ((src.convolve w h k).pixelAt (y * w + x)).channel c
          ≤ (src.pixelAt (y' * w + x')).channel c) ∧
      ((∀ x' < w, ∀ y' < h, Near r x x' → Near r y y' →
          src.pixelAt (y' * w + x') = .transparent) →
        (src.convolve w h k).pixelAt (y * w + x) = .transparent)) ∧
    (∀ c x y,
      let row := k.sumAt w (fun x' => ((src.pixelAt (y * w + x')).channel c).toNat) x
      let column := k.sumAt h (fun y' => (src.rowBlur w k c x y').toNat) y
      k.sumAtWord? w (fun x' => ((src.pixelAt (y * w + x')).channel c).toNat) x = some row ∧
      (src.rowBlur w k c x y).toNat = (row + Kernel.unit / 2) / Kernel.unit ∧
      k.sumAtWord? h (fun y' => (src.rowBlur w k c x y').toNat) y = some column ∧
      (src.blurAt w h k c x y).toNat = (column + Kernel.unit / 2) / Kernel.unit ∧
      (x < w → y < h →
        ((src.convolve w h k).pixelAt (y * w + x)).channel c = src.blurAt w h k c x y)) ∧
    (∀ (src' : Buffer) (c : Pixel.Channel),
      (∀ p < w * h, (src.pixelAt p).channel c = (src'.pixelAt p).channel c) →
      ∀ x < w, ∀ y < h, ((src.convolve w h k).pixelAt (y * w + x)).channel c
        = ((src'.convolve w h k).pixelAt (y * w + x)).channel c) ∧
    (k.reverse = k →
      (src.mirrorAcross w h).convolve w h k = (src.convolve w h k).mirrorAcross w h ∧
      (src.mirrorDown w h).convolve w h k = (src.convolve w h k).mirrorDown w h) := by
  have hradius : k.size / 2 = r := by omega
  refine ⟨fun src' hle => convolve_mono hle w h k, fun x hx y hy => ?_, fun c x y => ?_,
    fun src' c heq x hx y hy => channel_convolve_congr heq hx hy,
    fun hpal => ⟨convolve_mirrorAcross hk hpal src, convolve_mirrorDown hk hpal src⟩⟩
  · have hnear (c : Pixel.Channel) := exists_near_channel_convolve_le hmass src hx hy c
    rw [hradius] at hnear
    refine ⟨hnear, fun hclear => Pixel.ext_channel fun c => ?_⟩
    obtain ⟨x', hx', y', hy', hcolumn, hrow, hle⟩ := hnear c
    rw [hclear x' hx' y' hy' hcolumn hrow, Pixel.channel_transparent] at hle
    rw [Pixel.channel_transparent]
    exact UInt8.le_antisymm hle UInt8.zero_le
  · obtain ⟨hrow, hrowByte⟩ := Kernel.sumAt_unhindered hmass (n := w) (x := x)
      fun x' => (src.pixelAt (y * w + x')).channel c
    obtain ⟨hcolumn, hcolumnByte⟩ := Kernel.sumAt_unhindered hmass (n := h) (x := y)
      (src.rowBlur w k c x)
    exact ⟨hrow, hrowByte, hcolumn, hcolumnByte, fun hx hy => channel_convolve k src hx hy c⟩

/-- A black and a white pixel side by side, which a slighter picture lies below. -/
theorem exact_blur_order_pair :
    let src : Buffer := #[0, 0, 0, 255, 255, 255, 255, 255]
    let k : Kernel := #[16384, 32768, 16384]
    k.mass ≤ Kernel.unit ∧
      (∀ i, (src.convolve 2 1 k).byteAt i ≤
        (convolve #[9, 0, 0, 255, 255, 255, 255, 255] 2 1 k).byteAt i) ∧
      (∃ x' < 2, ∃ y' < 1, Near 1 0 x' ∧ Near 1 0 y' ∧
        ((src.convolve 2 1 k).pixelAt 0).channel .red
          ≤ (src.pixelAt (y' * 2 + x')).channel .red) ∧
      ((src.convolve 2 1 k).pixelAt 0).channel .red
        = ((convolve #[0, 9, 9, 9, 255, 9, 9, 9] 2 1 k).pixelAt 0).channel .red ∧
      convolve #[255, 255, 255, 255, 0, 0, 0, 255] 2 1 k
        = (src.convolve 2 1 k).mirrorAcross 2 1 := by
  intro src k
  have hmass : k.mass ≤ Kernel.unit := by decide
  obtain ⟨hmono, hplaces, -, hchannels, hmirror⟩ := @exact_blur_order 1 k rfl hmass src 2 1
  have hbrighter (i : Nat) : src.byteAt i ≤ byteAt #[9, 0, 0, 255, 255, 255, 255, 255] i := by
    obtain hi | hi := Nat.lt_or_ge i 8
    · exact (show ∀ i < 8, src.byteAt i ≤ byteAt #[9, 0, 0, 255, 255, 255, 255, 255] i by
        decide) i hi
    · rw [byteAt_of_size_le hi]
      exact UInt8.zero_le
  refine ⟨hmass, hmono _ hbrighter, (hplaces 0 (by decide) 0 (by decide)).1 .red, ?_,
    (hmirror (by simp [k])).1⟩
  exact hchannels #[0, 9, 9, 9, 255, 9, 9, 9] .red (by decide) 0 (by decide) 0 (by decide)

end Buffer

end SceneCanvas
