import SceneCanvas.Buffer
import SceneCanvas.Proofs.Pixel

/-!
# Buffers as rows of pixels

What the operations on buffers do to the pixels that `Buffer.pixelAt` shows. Every loop that
rewrites a run of pixels in place, each from its old value, is `Buffer.updateSpan`, and
`Buffer.pixelAt_updateSpan` says that it is a map: what is written to one pixel is never read for
another. Buffers that are built anew are known by `Buffer.pixelAt_ofPixels` and
`Buffer.byteAt_ofBytes`.

Bytes behind the last complete pixel are outside all of this. Their alpha reads as zero
(`Buffer.alpha_pixelAt_eq_zero`), so a source of partial pixels covers nothing.
-/

namespace SceneCanvas

/-- The place of a channel within the four bytes of a pixel. -/
def Pixel.Channel.index : Pixel.Channel → Nat
  | .red => 0
  | .green => 1
  | .blue => 2
  | .alpha => 3

theorem Pixel.Channel.index_lt (c : Pixel.Channel) : c.index < 4 := by
  cases c <;> decide

namespace Buffer

/-! ### Bytes and pixels -/

theorem byteAt_eq (b : Buffer) (i : Nat) : b.byteAt i = b[i]?.getD 0 :=
  Array.getD_eq_getD_getElem? ..

theorem byteAt_of_size_le {b : Buffer} {i : Nat} (h : b.size ≤ i) : b.byteAt i = 0 := by
  rw [byteAt_eq, Array.getElem?_eq_none h, Option.getD_none]

theorem pixelCount_congr {b b' : Buffer} (h : b.size = b'.size) : b.pixelCount = b'.pixelCount :=
  congrArg (· / 4) h

theorem channel_pixelAt (b : Buffer) (p : Nat) (c : Pixel.Channel) :
    (b.pixelAt p).channel c = b.byteAt (4 * p + c.index) := by
  cases c <;> rfl

/-- Beyond the last complete pixel there is no alpha. -/
theorem alpha_pixelAt_eq_zero {b : Buffer} {p : Nat} (h : b.pixelCount ≤ p) :
    (b.pixelAt p).a = 0 := by
  refine byteAt_of_size_le ?_
  rw [pixelCount] at h
  omega

/-- Buffers of one size are equal if they have the same bytes. -/
theorem ext_byteAt {b b' : Buffer} (hsize : b.size = b'.size)
    (h : ∀ i < b.size, b.byteAt i = b'.byteAt i) : b = b' := by
  refine Array.ext hsize fun i hi hi' => ?_
  have hbyte := h i hi
  rwa [byteAt_eq, byteAt_eq, Array.getElem?_eq_getElem hi, Array.getElem?_eq_getElem hi'] at hbyte

/-- Every byte is a channel of its pixel. -/
theorem byteAt_eq_of_pixelAt_eq {b b' : Buffer} {i : Nat}
    (h : b.pixelAt (i / 4) = b'.pixelAt (i / 4)) : b.byteAt i = b'.byteAt i := by
  have hbyte (c : Pixel.Channel) : b.byteAt (4 * (i / 4) + c.index)
      = b'.byteAt (4 * (i / 4) + c.index) := by
    rw [← channel_pixelAt, ← channel_pixelAt, h]
  have hcases : i % 4 = 0 ∨ i % 4 = 1 ∨ i % 4 = 2 ∨ i % 4 = 3 := by omega
  obtain hc | hc | hc | hc := hcases
  · exact (show i = 4 * (i / 4) + 0 by omega) ▸ hbyte .red
  · exact (show i = 4 * (i / 4) + 1 by omega) ▸ hbyte .green
  · exact (show i = 4 * (i / 4) + 2 by omega) ▸ hbyte .blue
  · exact (show i = 4 * (i / 4) + 3 by omega) ▸ hbyte .alpha

/-- Buffers without a partial pixel are equal if they have the same pixels. -/
theorem ext_pixelAt {b b' : Buffer} (hsize : b.size = b'.size) (hwhole : b.size % 4 = 0)
    (h : ∀ p < b.pixelCount, b.pixelAt p = b'.pixelAt p) : b = b' := by
  refine ext_byteAt hsize fun i hi => byteAt_eq_of_pixelAt_eq (h _ ?_)
  rw [pixelCount]
  omega

/-- The place of column `x` of row `y` is one of the picture. -/
theorem place_lt {w h x y : Nat} (hx : x < w) (hy : y < h) : y * w + x < w * h :=
  calc y * w + x < y * w + w := Nat.add_lt_add_left hx _
    _ = (y + 1) * w := (Nat.succ_mul y w).symm
    _ ≤ h * w := Nat.mul_le_mul_right w hy
    _ = w * h := Nat.mul_comm h w

/-- The pixel at column `x` of row `y` is one of a buffer that holds the picture. -/
theorem place_lt_pixelCount {b : Buffer} {w h x y : Nat} (hsize : 4 * (w * h) ≤ b.size)
    (hx : x < w) (hy : y < h) : y * w + x < b.pixelCount := by
  have hplace := place_lt hx hy
  rw [pixelCount]
  omega

/-- Pictures of `w` by `h` pixels are equal if they have the same channels in every column of every
row. -/
theorem ext_place {b b' : Buffer} {w h : Nat} (hb : b.size = 4 * (w * h))
    (hb' : b'.size = 4 * (w * h))
    (heq : ∀ x < w, ∀ y < h, ∀ c,
      (b.pixelAt (y * w + x)).channel c = (b'.pixelAt (y * w + x)).channel c) : b = b' := by
  refine ext_pixelAt (hb.trans hb'.symm) (by omega) fun p hp => Pixel.ext_channel fun c => ?_
  have hp' : p < w * h := by
    rw [pixelCount] at hp
    omega
  have hw : 0 < w := Nat.pos_of_mul_pos_right (Nat.zero_lt_of_lt hp')
  have hplace : p / w * w + p % w = p := by rw [Nat.mul_comm, Nat.div_add_mod]
  have hchannel := heq (p % w) (Nat.mod_lt p hw) (p / w) (Nat.div_lt_of_lt_mul hp') c
  rwa [hplace] at hchannel

instance (b : Buffer) : Decidable b.Premultiplied :=
  inferInstanceAs (Decidable (∀ p < b.pixelCount, (b.pixelAt p).Premultiplied))

/-! ### Replacing one byte or pixel -/

theorem byteAt_setIfInBounds (b : Buffer) (i : Nat) (v : UInt8) (j : Nat) :
    byteAt (b.setIfInBounds i v) j = if i = j ∧ j < b.size then v else b.byteAt j := by
  rw [byteAt_eq, byteAt_eq, Array.getElem?_setIfInBounds]
  by_cases hij : i = j
  · by_cases hj : j < b.size
    · simp [hij, hj]
    · simp [hij, hj]
  · simp [hij]

/-- A complete pixel is replaced as a whole, and the others stay. -/
theorem pixelAt_setPixel (b : Buffer) (p : Nat) (q : Pixel) {p' : Nat} (h : p' < b.pixelCount) :
    (b.setPixel p q).pixelAt p' = if p' = p then q else b.pixelAt p' := by
  rw [pixelCount] at h
  refine Pixel.ext_channel fun c => ?_
  have hc := c.index_lt
  rw [channel_pixelAt, setPixel]
  simp only [byteAt_setIfInBounds, Array.size_setIfInBounds]
  by_cases hp : p' = p
  · subst hp
    cases c <;> simp [Pixel.Channel.index, Pixel.channel] <;> omega
  · rw [if_neg (by omega), if_neg (by omega), if_neg (by omega), if_neg (by omega), if_neg hp,
      channel_pixelAt]

/-! ### Rewriting a run of pixels -/

/-- Replace the pixels from `d` on, `n` of them, each by `f` of its place in the run and its old
value. -/
def updateSpan (b : Buffer) (d n : Nat) (f : Nat → Pixel → Pixel) : Buffer :=
  n.fold (fun i _ acc => acc.setPixel (d + i) (f i (acc.pixelAt (d + i)))) b

theorem updateSpan_succ (b : Buffer) (d n : Nat) (f : Nat → Pixel → Pixel) :
    b.updateSpan d (n + 1) f = (b.updateSpan d n f).setPixel (d + n)
      (f n ((b.updateSpan d n f).pixelAt (d + n))) := by
  rw [updateSpan, Nat.fold_succ]
  rfl

@[simp] theorem size_updateSpan (b : Buffer) (d n : Nat) (f : Nat → Pixel → Pixel) :
    (b.updateSpan d n f).size = b.size := by
  induction n with
  | zero => rfl
  | succ n ih => rw [updateSpan_succ, size_setPixel, ih]

@[simp] theorem pixelCount_updateSpan (b : Buffer) (d n : Nat) (f : Nat → Pixel → Pixel) :
    (b.updateSpan d n f).pixelCount = b.pixelCount :=
  pixelCount_congr (size_updateSpan ..)

/-- **A run of updates is a map**: the complete pixels of the run have their new values, and all
others have stayed. -/
theorem pixelAt_updateSpan (b : Buffer) (d n : Nat) (f : Nat → Pixel → Pixel) {p : Nat}
    (hp : p < b.pixelCount) :
    (b.updateSpan d n f).pixelAt p =
      if d ≤ p ∧ p < d + n then f (p - d) (b.pixelAt p) else b.pixelAt p := by
  induction n with
  | zero => rw [if_neg (by omega)]; rfl
  | succ n ih =>
    rw [updateSpan_succ, pixelAt_setPixel _ _ _ (by rwa [pixelCount_updateSpan])]
    by_cases hlast : p = d + n
    · -- the last pixel of the run has not been written before
      subst hlast
      rw [if_pos rfl, ih, if_neg (by omega), if_pos (by omega), Nat.add_sub_cancel_left]
    · rw [if_neg hlast, ih]
      by_cases hin : d ≤ p ∧ p < d + n
      · rw [if_pos hin, if_pos (by omega)]
      · rw [if_neg hin, if_neg (by omega)]

theorem mapPixels_eq_updateSpan (b : Buffer) (f : Pixel → Pixel) :
    b.mapPixels f = b.updateSpan 0 b.pixelCount fun _ => f := by
  rw [mapPixels, updateSpan]
  congr 1
  funext i _ acc
  rw [Nat.zero_add]

@[simp] theorem size_mapPixels (b : Buffer) (f : Pixel → Pixel) :
    (b.mapPixels f).size = b.size := by
  rw [mapPixels_eq_updateSpan, size_updateSpan]

theorem pixelAt_mapPixels (b : Buffer) (f : Pixel → Pixel) {p : Nat} (hp : p < b.pixelCount) :
    (b.mapPixels f).pixelAt p = f (b.pixelAt p) := by
  rw [mapPixels_eq_updateSpan, pixelAt_updateSpan _ _ _ _ hp, if_pos (by omega)]

/-! ### Rewriting all bytes -/

/-- Replace the first `n` bytes, each by `f` of its place and its old value. -/
def updateBytes (b : Buffer) (n : Nat) (f : Nat → UInt8 → UInt8) : Buffer :=
  n.fold (fun i _ acc => acc.setIfInBounds i (f i (acc.byteAt i))) b

theorem updateBytes_succ (b : Buffer) (n : Nat) (f : Nat → UInt8 → UInt8) :
    b.updateBytes (n + 1) f = (b.updateBytes n f).setIfInBounds n
      (f n ((b.updateBytes n f).byteAt n)) := by
  rw [updateBytes, Nat.fold_succ]
  rfl

@[simp] theorem size_updateBytes (b : Buffer) (n : Nat) (f : Nat → UInt8 → UInt8) :
    (b.updateBytes n f).size = b.size := by
  induction n with
  | zero => rfl
  | succ n ih => rw [updateBytes_succ, Array.size_setIfInBounds, ih]

theorem byteAt_updateBytes (b : Buffer) (n : Nat) (f : Nat → UInt8 → UInt8) {i : Nat}
    (hi : i < b.size) :
    (b.updateBytes n f).byteAt i = if i < n then f i (b.byteAt i) else b.byteAt i := by
  induction n with
  | zero => rfl
  | succ n ih =>
    rw [updateBytes_succ, byteAt_setIfInBounds, size_updateBytes]
    by_cases hlast : n = i
    · subst hlast
      rw [if_pos ⟨rfl, hi⟩, ih, if_neg (Nat.lt_irrefl n), if_pos (Nat.lt_succ_self n)]
    · rw [if_neg (fun h => hlast h.1), ih]
      by_cases hin : i < n
      · rw [if_pos hin, if_pos (by omega)]
      · rw [if_neg hin, if_neg (by omega)]

/-! ### Buffers built anew -/

theorem byteAt_push (b : Buffer) (v : UInt8) (j : Nat) :
    byteAt (b.push v) j = if j = b.size then v else b.byteAt j := by
  rw [byteAt_eq, byteAt_eq, Array.getElem?_push]
  split <;> rfl

/-- A pixel appended to complete pixels comes after them. -/
theorem pixelAt_pushPixel {b : Buffer} {n : Nat} (hb : b.size = 4 * n) (q : Pixel) {p : Nat}
    (hp : p ≤ n) : (b.pushPixel q).pixelAt p = if p = n then q else b.pixelAt p := by
  refine Pixel.ext_channel fun c => ?_
  have hc := c.index_lt
  rw [channel_pixelAt, pushPixel]
  simp only [byteAt_push, Array.size_push, hb]
  by_cases hn : p = n
  · subst hn
    cases c <;> simp [Pixel.Channel.index, Pixel.channel, Nat.add_assoc]
  · rw [if_neg (by omega), if_neg (by omega), if_neg (by omega), if_neg (by omega), if_neg hn,
      channel_pixelAt]

theorem ofPixels_eq_fold (n : Nat) (f : Nat → Pixel) :
    ofPixels n f = n.fold (fun p _ (b : Buffer) => b.pushPixel (f p)) #[] := rfl

theorem ofPixels_succ (n : Nat) (f : Nat → Pixel) :
    ofPixels (n + 1) f = (ofPixels n f).pushPixel (f n) := by
  rw [ofPixels_eq_fold, ofPixels_eq_fold, Nat.fold_succ]

@[simp] theorem pixelCount_ofPixels (n : Nat) (f : Nat → Pixel) :
    (ofPixels n f).pixelCount = n := by
  rw [pixelCount, size_ofPixels]
  omega

theorem pixelAt_ofPixels (n : Nat) (f : Nat → Pixel) {p : Nat} (hp : p < n) :
    (ofPixels n f).pixelAt p = f p := by
  induction n with
  | zero => exact absurd hp (Nat.not_lt_zero p)
  | succ n ih =>
    rw [ofPixels_succ,
      pixelAt_pushPixel (size_ofPixels n f) _ (Nat.le_of_lt_succ hp)]
    by_cases hn : p = n
    · rw [if_pos hn, hn]
    · rw [if_neg hn, ih (by omega)]

theorem byteAt_ofBytes (n : Nat) (f : Nat → UInt8) {i : Nat} (hi : i < n) :
    (ofBytes n f).byteAt i = f i := by
  rw [byteAt_eq, ofBytes, Array.getElem?_ofFn, dif_pos hi, Option.getD_some]

theorem byteAt_zeros (n i : Nat) : (zeros n).byteAt i = 0 := by
  rw [byteAt_eq, zeros, Array.getElem?_replicate]
  split <;> rfl

theorem pixelAt_zeros (n p : Nat) : (zeros n).pixelAt p = .transparent :=
  Pixel.ext_channel fun c => by rw [channel_pixelAt, byteAt_zeros, Pixel.channel_transparent]

end Buffer

end SceneCanvas
