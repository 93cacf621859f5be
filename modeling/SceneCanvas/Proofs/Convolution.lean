import SceneCanvas.Blur.Exact
import SceneCanvas.Proofs.Buffer
import SceneCanvas.Proofs.Control

/-!
# The exact blur, channel by channel

Both passes of `Buffer.convolve` treat the channels alike and each on its own
(`Buffer.channel_convolveRows`, `Buffer.channel_convolveColumns`): a channel of a blurred pixel is
the rounded weighted sum of the same channel of the pixels in its row or column. Weights are never
negative, so the sum is monotone in the samples, whatever the kernel. A buffer whose colours are
within their alpha therefore stays so (`Buffer.Premultiplied.convolve`).
-/

namespace SceneCanvas

namespace Kernel

/-- A weighted sum is monotone in the samples that lie on the line. -/
theorem sumAt_le_sumAt (k : Kernel) {n : Nat} {f g : Nat → Nat} (h : ∀ x < n, f x ≤ g x)
    (x : Nat) : k.sumAt n f x ≤ k.sumAt n g x := by
  refine fold_related k.size (R := (· ≤ ·)) (Nat.le_refl 0) fun j hj u v huv => ?_
  split
  next hin =>
    have hsample : f (x + j - k.size / 2) ≤ g (x + j - k.size / 2) := h _ (by omega)
    exact Nat.add_le_add huv (Nat.mul_le_mul_left _ hsample)
  next => exact huv

theorem toNat_toByte (acc : Nat) : (toByte acc).toNat = min 255 ((acc + 32768) / 65536) := by
  rw [toByte, UInt8.toNat_ofNat',
    Nat.mod_eq_of_lt (Nat.lt_of_le_of_lt (Nat.min_le_left _ _) (by decide))]
  rfl

theorem toByte_le_toByte {u v : Nat} (h : u ≤ v) : toByte u ≤ toByte v := by
  rw [UInt8.le_iff_toNat_le, toNat_toByte, toNat_toByte]
  omega

end Kernel

namespace Buffer

/-! ### The two passes -/

@[simp] theorem size_convolveRows (src : Buffer) (w h : Nat) (k : Kernel) :
    (src.convolveRows w h k).size = w * h * 4 := by
  rw [convolveRows, size_ofBytes]

@[simp] theorem size_convolveColumns (src : Buffer) (w h : Nat) (k : Kernel) :
    (src.convolveColumns w h k).size = w * h * 4 := by
  rw [convolveColumns, size_ofBytes]

@[simp] theorem size_convolve (src : Buffer) (w h : Nat) (k : Kernel) :
    (src.convolve w h k).size = w * h * 4 :=
  size_convolveColumns ..

/-- A channel of a pixel lies at a byte whose quotient by four is the pixel. -/
private theorem index_div_mod (p : Nat) (c : Pixel.Channel) :
    (p * 4 + c.index) / 4 = p ∧ (p * 4 + c.index) % 4 = c.index := by
  have hc := c.index_lt
  omega

theorem channel_convolveRows (src : Buffer) (w h : Nat) (k : Kernel) {p : Nat} (hp : p < w * h)
    (c : Pixel.Channel) :
    ((src.convolveRows w h k).pixelAt p).channel c
      = Kernel.toByte
          (k.sumAt w (fun x => ((src.pixelAt (p / w * w + x)).channel c).toNat) (p % w)) := by
  have hc := c.index_lt
  obtain ⟨hdiv, hmod⟩ := index_div_mod p c
  rw [channel_pixelAt, Nat.mul_comm 4, convolveRows, byteAt_ofBytes _ _ (by omega)]
  simp only [hdiv, hmod, channel_pixelAt, Nat.mul_comm 4]

theorem channel_convolveColumns (src : Buffer) (w h : Nat) (k : Kernel) {p : Nat} (hp : p < w * h)
    (c : Pixel.Channel) :
    ((src.convolveColumns w h k).pixelAt p).channel c
      = Kernel.toByte
          (k.sumAt h (fun y => ((src.pixelAt (y * w + p % w)).channel c).toNat) (p / w)) := by
  have hc := c.index_lt
  obtain ⟨hdiv, hmod⟩ := index_div_mod p c
  rw [channel_pixelAt, Nat.mul_comm 4, convolveColumns, byteAt_ofBytes _ _ (by omega)]
  simp only [hdiv, hmod, channel_pixelAt, Nat.mul_comm 4]

/-! ### Colours stay within alpha -/

/-- A pixel whose channels are weighted sums of the channels of premultiplied pixels, with the same
weights for all of them, is premultiplied. -/
theorem premultiplied_of_channel_eq {q : Pixel} {k : Kernel} {n i : Nat} {line : Nat → Pixel}
    (hq : ∀ c, q.channel c = Kernel.toByte (k.sumAt n (fun x => ((line x).channel c).toNat) i))
    (hline : ∀ x < n, (line x).Premultiplied) : q.Premultiplied := by
  refine Pixel.premultiplied_iff.mpr fun c => ?_
  rw [← Pixel.channel_alpha, hq, hq]
  refine Kernel.toByte_le_toByte (k.sumAt_le_sumAt (fun x hx => ?_) _)
  exact UInt8.le_iff_toNat_le.mp (Pixel.premultiplied_iff.mp (hline x hx) c)

theorem Premultiplied.convolveRows {src : Buffer} (hsrc : src.Premultiplied) {w h : Nat}
    (hsize : src.size = w * h * 4) (k : Kernel) : (src.convolveRows w h k).Premultiplied := by
  intro p hp
  rw [pixelCount, size_convolveRows, Nat.mul_div_cancel _ (by decide)] at hp
  have hrow : p / w < h := Nat.div_lt_of_lt_mul hp
  refine premultiplied_of_channel_eq (channel_convolveRows _ _ _ _ hp) fun x hx => hsrc _ ?_
  exact place_lt_pixelCount (by omega) hx hrow

theorem Premultiplied.convolveColumns {src : Buffer} (hsrc : src.Premultiplied) {w h : Nat}
    (hsize : src.size = w * h * 4) (k : Kernel) : (src.convolveColumns w h k).Premultiplied := by
  intro p hp
  rw [pixelCount, size_convolveColumns, Nat.mul_div_cancel _ (by decide)] at hp
  have hcolumn : p % w < w := Nat.mod_lt p (Nat.pos_of_mul_pos_right (Nat.zero_lt_of_lt hp))
  refine premultiplied_of_channel_eq (channel_convolveColumns _ _ _ _ hp) fun y hy => hsrc _ ?_
  exact place_lt_pixelCount (by omega) hcolumn hy

/-- **The exact blur keeps colours within alpha**, with any kernel. -/
theorem Premultiplied.convolve {src : Buffer} (hsrc : src.Premultiplied) {w h : Nat}
    (hsize : src.size = w * h * 4) (k : Kernel) : (src.convolve w h k).Premultiplied :=
  (hsrc.convolveRows hsize k).convolveColumns (size_convolveRows ..) k

end Buffer

end SceneCanvas
