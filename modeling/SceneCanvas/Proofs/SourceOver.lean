import SceneCanvas.Proofs.Blend

/-!
# Laying over is one function of two pixels

Three operations lay pixels over others: `Buffer.sourceOver` on whole buffers, `Buffer.fillOver`
with one colour, and `Buffer.overAt` with a buffer placed anywhere. Each has exits of its own, for
an opacity of zero, a source pixel without coverage, a transparent colour, or rows and columns
beyond an edge. On premultiplied sources none of them shows: all three compute the plain formula
`Pixel.plainOver` at every pixel that they cover, and change no other
(`Buffer.laying_over_is_plain`).
-/

namespace SceneCanvas

namespace Pixel

/-- The pixel `out` is what the plain formula makes of `s` over `d`, without a carry. -/
def IsPlainOver (opacity : UInt8) (s d out : Pixel) : Prop :=
  ∀ c, (out.channel c).toNat = plainOver opacity s d c

theorem isPlainOver_sourceOver {s : Pixel} (hs : s.Premultiplied) (opacity : UInt8) (d : Pixel) :
    IsPlainOver opacity s d (sourceOver opacity s d) :=
  toNat_channel_sourceOver hs opacity d

/-- Full opacity is the full byte. -/
theorem fractionByte_one : fractionByte 1.0 = 255 := by decide

end Pixel

namespace Buffer

/-- Laying over a whole buffer is the plain formula at each pixel. -/
theorem isPlainOver_of_sourceOver_eq_ok {dst src out : Buffer} {opacity : Float32}
    (h : dst.sourceOver src opacity = .ok out) (hsrc : src.Premultiplied) {p : Nat}
    (hp : p < dst.pixelCount) :
    Pixel.IsPlainOver (Pixel.fractionByte opacity) (src.pixelAt p) (dst.pixelAt p)
      (out.pixelAt p) := by
  obtain ⟨⟨hsize, -⟩, rfl⟩ := sourceOver_eq_ok_iff.mp h
  have hps : p < src.pixelCount := pixelCount_congr hsize ▸ hp
  rw [pixelAt_overSpan _ _ _ _ _ _ hp, if_pos (by omega), Nat.zero_add, Nat.sub_zero]
  exact Pixel.isPlainOver_sourceOver (hsrc p hps) _ _

/-- Laying over a buffer that repeats one colour is laying over the colour. -/
theorem sourceOver_repeat_eq_fillOver {dst : Buffer} (hdst : dst.size % 4 = 0) (color : Pixel) :
    dst.sourceOver (ofPixels dst.pixelCount fun _ => color) 1.0 = .ok (dst.fillOver color) := by
  refine sourceOver_eq_ok_iff.mpr ⟨⟨?_, hdst⟩, ?_⟩
  · rw [size_ofPixels, pixelCount]
    omega
  · rw [Pixel.fractionByte_one]
    refine ext_pixelAt (by simp) (by simpa using hdst) fun p hp => ?_
    rw [pixelCount_overSpan] at hp
    rw [pixelAt_fillOver _ _ hp, pixelAt_overSpan _ _ _ _ _ _ hp, if_pos (by omega),
      pixelAt_ofPixels _ _ (by omega)]

/-- The buffer `out` of `dw` by `dh` pixels is `dst` with a source of `sw` by `sh` pixels laid over
it by the plain formula, top left corner at `(x, y)`. -/
structure IsPlacedOver (dst : Buffer) (dw dh : Nat) (src : Buffer) (sw sh : Nat) (x y : Int)
    (out : Buffer) : Prop where
  size_eq : out.size = dst.size
  /-- Where there is a source pixel, it lies over the destination pixel. -/
  covered : ∀ X < dw, ∀ Y < dh, ∀ sx < sw, ∀ sy < sh, (X : Int) - x = sx → (Y : Int) - y = sy →
    Pixel.IsPlainOver 255 (src.pixelAt (sy * sw + sx)) (dst.pixelAt (Y * dw + X))
      (out.pixelAt (Y * dw + X))
  /-- Where there is none, the destination pixel has stayed. -/
  outside : ∀ X < dw, ∀ Y < dh,
    ¬ ((0 ≤ (X : Int) - x ∧ (X : Int) - x < sw) ∧ (0 ≤ (Y : Int) - y ∧ (Y : Int) - y < sh)) →
    out.pixelAt (Y * dw + X) = dst.pixelAt (Y * dw + X)

theorem isPlacedOver_overAt {dst src : Buffer} {dw dh sw sh : Nat}
    (hdst : dst.size = 4 * (dw * dh)) (hsrc : src.size = 4 * (sw * sh)) (hpre : src.Premultiplied)
    (x y : Int) : IsPlacedOver dst dw dh src sw sh x y (dst.overAt dw dh src sw sh x y) where
  size_eq := size_overAt ..
  covered X hX Y hY sx hsx sy hsy hx hy := by
    have htarget := place_lt_pixelCount (Nat.le_of_eq hdst.symm) hX hY
    have hsource := place_lt_pixelCount (Nat.le_of_eq hsrc.symm) hsx hsy
    rw [pixelAt_overAt_of_eq src hX hY htarget hsx hsy hx hy]
    exact Pixel.isPlainOver_sourceOver (hpre _ hsource) _ _
  outside X hX Y hY h := by
    rw [pixelAt_overAt hdst src sw sh x y hX hY, if_neg (by omega)]

/-- **The three ways of laying over are one function of two pixels.** On equally long buffers of
complete pixels, at every opacity, the result is the plain formula at each pixel. One colour is the
buffer that repeats it, at full opacity. A buffer that is placed somewhere is laid over by the same
formula where it lies on the destination, leaves the other pixels alone, and is cut into rows that
all lie within both buffers. -/
theorem laying_over_is_plain :
    (∀ (dst src : Buffer) (opacity : Float32), src.size = dst.size → dst.size % 4 = 0 →
      src.Premultiplied →
      ∃ out, dst.sourceOver src opacity = .ok out ∧ out.size = dst.size ∧
        ∀ p < dst.pixelCount, Pixel.IsPlainOver (Pixel.fractionByte opacity) (src.pixelAt p)
          (dst.pixelAt p) (out.pixelAt p)) ∧
    (∀ (dst : Buffer) (color : Pixel), dst.size % 4 = 0 →
      dst.sourceOver (ofPixels dst.pixelCount fun _ => color) 1.0 = .ok (dst.fillOver color)) ∧
    (∀ (dst src : Buffer) (dw dh sw sh : Nat) (x y : Int), dst.size = 4 * (dw * dh) →
      src.size = 4 * (sw * sh) → src.Premultiplied →
      IsPlacedOver dst dw dh src sw sh x y (dst.overAt dw dh src sw sh x y) ∧
      dst.overAt dw dh src sw sh x y = (overAtSpans dw dh sw sh x y).foldl
        (fun acc span => acc.overSpan span.target.toNat src span.source.toNat
          span.length.toNat 255) dst ∧
      ∀ span ∈ overAtSpans dw dh sw sh x y, span.InBounds dst src) := by
  refine ⟨?whole, fun dst color hdst => sourceOver_repeat_eq_fillOver hdst color, ?placed⟩
  case whole =>
    intro dst src opacity hsize hdst hpre
    have hok : dst.sourceOver src opacity
        = .ok (dst.overSpan 0 src 0 dst.pixelCount (Pixel.fractionByte opacity)) :=
      sourceOver_eq_ok_iff.mpr ⟨⟨hsize.symm, hdst⟩, rfl⟩
    exact ⟨_, hok, size_overSpan .., fun p hp => isPlainOver_of_sourceOver_eq_ok hok hpre hp⟩
  case placed =>
    intro dst src dw dh sw sh x y hdst hsrc hpre
    exact ⟨isPlacedOver_overAt hdst hsrc hpre x y, overAt_eq_foldl ..,
      overAtSpans_inBounds hdst hsrc x y⟩

/-- A half covered pixel over an opaque one, a translucent colour over both, and a row of two pixels
of which one hangs over the left edge. -/
theorem laying_over_is_plain_halves :
    (∃ out, Buffer.sourceOver #[10, 20, 30, 255] #[128, 0, 64, 128] 1.0 = .ok out ∧ out.size = 4 ∧
      ∀ p < 1, Pixel.IsPlainOver (Pixel.fractionByte 1.0)
        (pixelAt #[128, 0, 64, 128] p) (pixelAt #[10, 20, 30, 255] p) (out.pixelAt p)) ∧
    Buffer.sourceOver #[10, 20, 30, 255] (ofPixels 1 fun _ => ⟨9, 9, 9, 20⟩) 1.0
      = .ok (fillOver #[10, 20, 30, 255] ⟨9, 9, 9, 20⟩) ∧
    IsPlacedOver #[10, 20, 30, 255] 1 1 #[0, 0, 0, 0, 128, 0, 64, 128] 2 1 (-1) 0
      (overAt #[10, 20, 30, 255] 1 1 #[0, 0, 0, 0, 128, 0, 64, 128] 2 1 (-1) 0) :=
  ⟨laying_over_is_plain.1 _ _ 1.0 rfl rfl (by decide),
    laying_over_is_plain.2.1 #[10, 20, 30, 255] ⟨9, 9, 9, 20⟩ rfl,
    (laying_over_is_plain.2.2 _ _ 1 1 2 1 (-1) 0 rfl rfl (by decide)).1⟩

end Buffer

end SceneCanvas
