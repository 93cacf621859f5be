import SceneCanvas.Proofs.Checked
import SceneCanvas.Render.Canvas

/-!
# Changing tones before or after the cut

A blur that does not fade grows the picture, blurs it, changes the tones of the grown picture, and
cuts the middle out. The tones might as well be changed after the cut: a matrix gives every pixel a
new value that depends on its old value alone, and cutting moves whole pixels about
(`Buffer.crop_mapPixels`), so matrices go through the cut one after the other
(`ColorMatrix.crop_applyAll`). Where nothing is grown and nothing is blurred, growing
and cutting do nothing (`Buffer.padEdges_zero`, `Buffer.crop_zero`), so a blur of deviation zero may
change the tones in place.
-/

namespace SceneCanvas

namespace Buffer

/-! ### Growing and cutting by nothing -/

theorem padEdges_zero {src : Buffer} {w h : Nat} (hsrc : src.size = 4 * (w * h)) :
    src.padEdges w h 0 = src := by
  refine ext_place (size_padEdges ..) hsrc fun x hx y hy c => ?_
  have hgrown := @pixelAt_padEdges src w h 0 x y hx hy
  have hcolumn : clampIndex w 0 x = x := Nat.min_eq_left (Nat.le_sub_one_of_lt hx)
  have hrow : clampIndex h 0 y = y := Nat.min_eq_left (Nat.le_sub_one_of_lt hy)
  rw [hcolumn, hrow] at hgrown
  exact congrArg (·.channel c) hgrown

theorem crop_zero {src : Buffer} {w h : Nat} (hsrc : src.size = 4 * (w * h)) :
    src.crop w 0 w h = src := by
  refine ext_place (size_crop ..) hsrc fun x hx y hy c => ?_
  rw [pixelAt_crop src w 0 hx hy, Nat.add_zero, Nat.add_zero]

/-! ### Cutting and changing pixels -/

/-- **Pixels may be changed before or after the cut**, if none is cut out that is not there. -/
theorem crop_mapPixels {src : Buffer} {w h pad : Nat}
    (hsrc : src.size = 4 * ((w + 2 * pad) * (h + 2 * pad))) (f : Pixel → Pixel) :
    (src.mapPixels f).crop (w + 2 * pad) pad w h
      = (src.crop (w + 2 * pad) pad w h).mapPixels f := by
  refine ext_place (size_crop ..) (by rw [size_mapPixels, size_crop]) fun x hx y hy c => ?_
  have hplace : (y + pad) * (w + 2 * pad) + (x + pad) < src.pixelCount :=
    place_lt_pixelCount hsrc.ge (by omega) (by omega)
  have hcut : y * w + x < (src.crop (w + 2 * pad) pad w h).pixelCount :=
    place_lt_pixelCount (size_crop ..).ge hx hy
  rw [pixelAt_crop _ _ _ hx hy, pixelAt_mapPixels _ _ hplace, pixelAt_mapPixels _ _ hcut,
    pixelAt_crop _ _ _ hx hy]

end Buffer

namespace ColorMatrix

/-- Apply matrices one after the other. -/
def applyAll (matrices : List (ColorMatrix Float32)) (b : Buffer) : Buffer :=
  matrices.foldl (fun b m => m.apply b) b

@[simp] theorem size_applyAll (matrices : List (ColorMatrix Float32)) (b : Buffer) :
    (applyAll matrices b).size = b.size := by
  induction matrices generalizing b with
  | nil => rfl
  | cons m matrices ih => exact (ih _).trans (Buffer.size_mapPixels ..)

theorem crop_applyAll (matrices : List (ColorMatrix Float32)) {b : Buffer} {w h pad : Nat}
    (hb : b.size = 4 * ((w + 2 * pad) * (h + 2 * pad))) :
    (applyAll matrices b).crop (w + 2 * pad) pad w h
      = applyAll matrices (b.crop (w + 2 * pad) pad w h) := by
  induction matrices generalizing b with
  | nil => rfl
  | cons m matrices ih =>
    have hsize : (m.apply b).size = 4 * ((w + 2 * pad) * (h + 2 * pad)) :=
      (Buffer.size_mapPixels ..).trans hb
    exact (ih hsize).trans (congrArg (applyAll matrices) (Buffer.crop_mapPixels hb m.applyPixel))

end ColorMatrix

namespace Buffer

/-! ### Blurs that succeed -/

theorem size_of_exactBlur_eq_ok {src out : Buffer} {w h radius : Nat} {sigma : Float32}
    (hblur : src.exactBlur w h radius sigma = .ok out) : out.size = src.size := by
  rw [exactBlur] at hblur
  split at hblur
  next => cases hblur
  next =>
    split at hblur
    next => cases hblur
    next hsize =>
      split at hblur
      next =>
        cases hblur
        rfl
      next =>
        obtain ⟨k, -, hconvolve⟩ := bind_eq_ok_iff.mp hblur
        cases hconvolve
        rw [size_convolve, not_not.mp hsize]

/-- A blur that succeeds gives as many bytes as it was given. -/
theorem size_of_gaussianBlur_eq_ok {src out : Buffer} {w h : Nat} {sigma : Float32}
    (hblur : src.gaussianBlur w h sigma = .ok out) : out.size = src.size := by
  rw [gaussianBlur] at hblur
  split at hblur
  next => cases hblur
  next =>
    split at hblur
    next => exact size_of_exactBlur_eq_ok hblur
    next =>
      split at hblur
      next => cases hblur
      next =>
        split at hblur
        next => cases hblur
        next hsize =>
          dsimp only at hblur
          split at hblur
          next =>
            cases hblur
            rw [not_not.mp hsize]
            exact (boxBlur?_eq_some (not_not.mp hsize) fun pass hpass =>
              (BoxPass.left_le_size_of_mem_triple (d := BoxPass.sizeFor sigma) hpass).1).2
          next => cases hblur

/-- **Tones may be changed after the blur**, whether it succeeds or fails. -/
theorem paddedBlur_applyAll (src : Buffer) (w h : Nat) (pixels : UInt32)
    (matrices : List (ColorMatrix Float32)) :
    src.paddedBlur w h pixels (ColorMatrix.applyAll matrices)
      = (src.paddedBlur w h pixels id).map (ColorMatrix.applyAll matrices) := by
  rw [paddedBlur, paddedBlur]
  cases hblur : (src.padEdges w h (blurReach pixels.toFloat32)).gaussianBlur
      (w + 2 * blurReach pixels.toFloat32) (h + 2 * blurReach pixels.toFloat32)
      pixels.toFloat32 with
  | error e => rfl
  | ok blurred =>
    have hsize := (size_of_gaussianBlur_eq_ok hblur).trans (size_padEdges ..)
    exact congrArg Except.ok (ColorMatrix.crop_applyAll matrices hsize)

theorem blurReach_zero : blurReach (UInt32.toFloat32 0) = 0 :=
  blurReach_eq (by decide : (0 : UInt32) ≤ 128)

/-- **A blur of deviation zero** changes nothing but the tones. -/
theorem paddedBlur_zero {src : Buffer} {w h : Nat} (hsrc : src.size = 4 * (w * h))
    (hword : src.size < Word.count64) (matrices : List (ColorMatrix Float32)) :
    src.paddedBlur w h 0 (ColorMatrix.applyAll matrices)
      = .ok (ColorMatrix.applyAll matrices src) := by
  have hsize : src.size = w * h * 4 := hsrc.trans (Nat.mul_comm ..)
  have hzero : (0 : UInt32) < 2 := by decide
  obtain ⟨k, hk, -, hblur⟩ := paddedBlur_eq_ok hzero blurReach_zero
    (show (w + 2 * 0) * (h + 2 * 0) * 4 < Word.count64 from hsize ▸ hword) src
  cases hk
  have hsame : (ColorMatrix.applyAll matrices src).size = 4 * (w * h) :=
    (ColorMatrix.size_applyAll ..).trans hsrc
  rw [hblur, padEdges_zero hsrc, Nat.mul_zero, Nat.add_zero, Nat.add_zero, convolve_unit hsize,
    crop_zero hsame]

end Buffer

namespace Render.Canvas

/-- **A blur of any deviation** takes the road over the grown picture, or one that leads to the same
end. -/
theorem blur_eq_replaceData {c : Canvas} (hshape : c.surface.Shaped)
    (hword : c.surface.data.size < Word.count64) (pixels : UInt32) (tones : List (Tone Float32)) :
    c.blur pixels tones = c.replaceData (c.surface.data.paddedBlur c.surface.width c.surface.height
      pixels (ColorMatrix.applyAll (tones.map .ofTone))) := by
  have hadjust : (fun b => tones.foldl (fun b t => (ColorMatrix.ofTone t).apply b) b)
      = ColorMatrix.applyAll (tones.map .ofTone) :=
    funext fun b => by rw [ColorMatrix.applyAll, List.foldl_map]
  rw [blur, hadjust]
  split
  next hzero => rw [hzero, Buffer.paddedBlur_zero hshape hword]; rfl
  next => rfl

end Render.Canvas

/-- **Tones before or after the cut.** Let a buffer hold `w` by `h` pixels. Matrices that are
applied to a grown picture before the middle is cut out of it give what they give afterwards,
whatever the picture was grown by, so a blur that changes tones is a blur followed by the change,
and for all sizes of surfaces and all deviations that a scene can name it succeeds. As long as the
bytes can be counted at all, a blur of deviation zero has no reach and gives what the matrices give,
which is what a canvas does that changes its tones in place. -/
theorem Buffer.tones_across_cut (matrices : List (ColorMatrix Float32)) {src : Buffer} {w h : Nat}
    (hw : 0 < w) (hh : 0 < h) (hsrc : src.size = 4 * (w * h)) :
    (∀ (pad : Nat) (blurred : Buffer), blurred.size = 4 * ((w + 2 * pad) * (h + 2 * pad)) →
      (ColorMatrix.applyAll matrices blurred).crop (w + 2 * pad) pad w h
        = ColorMatrix.applyAll matrices (blurred.crop (w + 2 * pad) pad w h)) ∧
    (∀ pixels, src.paddedBlur w h pixels (ColorMatrix.applyAll matrices)
      = (src.paddedBlur w h pixels id).map (ColorMatrix.applyAll matrices)) ∧
    (w ≤ 65535 → h ≤ 65535 → ∀ pixels ≤ 128, ∃ out : Buffer, out.size = 4 * (w * h) ∧
      src.paddedBlur w h pixels id = .ok out ∧
      src.paddedBlur w h pixels (ColorMatrix.applyAll matrices)
        = .ok (ColorMatrix.applyAll matrices out) ∧
      src.paddedBlur? w h pixels (fun b => some (ColorMatrix.applyAll matrices b))
        = some (ColorMatrix.applyAll matrices out)) ∧
    (src.size < Word.count64 →
      blurReach (UInt32.toFloat32 0) = 0 ∧
      src.paddedBlur w h 0 (ColorMatrix.applyAll matrices)
        = .ok (ColorMatrix.applyAll matrices src) ∧
      ∀ (c : Render.Canvas) (tones : List (Tone Float32)), c.surface = ⟨w, h, src⟩ →
        tones.map .ofTone = matrices →
        c.blur 0 tones
          = c.replaceData (src.paddedBlur w h 0 (ColorMatrix.applyAll matrices))) := by
  have hafter (pixels : UInt32) := src.paddedBlur_applyAll w h pixels matrices
  refine ⟨fun pad blurred hblurred => ColorMatrix.crop_applyAll matrices hblurred, hafter,
    fun hwMax hhMax pixels hpixels => ?_, fun hword => ⟨blurReach_zero,
      paddedBlur_zero hsrc hword matrices, fun c tones hsurface htones => ?_⟩⟩
  · have hid (b : Buffer) : some b = some (id b) ∧ (id b).size = b.size := ⟨rfl, rfl⟩
    obtain ⟨out, hout, -, hsize⟩ :=
      paddedBlur?_eq_some ⟨hw, hwMax⟩ ⟨hh, hhMax⟩ hsrc hpixels hid
    obtain ⟨adjusted, hadjusted, hchecked, -⟩ := paddedBlur?_eq_some ⟨hw, hwMax⟩ ⟨hh, hhMax⟩ hsrc
      hpixels fun b => ⟨rfl, ColorMatrix.size_applyAll matrices b⟩
    have hsame : src.paddedBlur w h pixels (ColorMatrix.applyAll matrices)
        = .ok (ColorMatrix.applyAll matrices out) := by
      rw [hafter, hout]
      rfl
    rw [hsame] at hadjusted
    cases hadjusted
    exact ⟨out, hsize, hout, hsame, hchecked⟩
  · have hshape : c.surface.Shaped := by
      rw [hsurface]
      exact hsrc
    have hwordSurface : c.surface.data.size < Word.count64 := by rwa [hsurface]
    rw [Render.Canvas.blur_eq_replaceData hshape hwordSurface, htones, hsurface]

/-- A black and a white pixel change places in the negative of a blur, and in the negative. -/
theorem Buffer.tones_across_cut_negative :
    let src : Buffer := #[0, 0, 0, 255, 255, 255, 255, 255]
    let negative := ColorMatrix.applyAll [ColorMatrix.invert (1.0 : Float32)]
    (∃ out : Buffer, out.size = 8 ∧ src.paddedBlur 2 1 3 id = .ok out ∧
      src.paddedBlur 2 1 3 negative = .ok (negative out)) ∧
    src.paddedBlur 2 1 0 negative = .ok #[255, 255, 255, 255, 0, 0, 0, 255] := by
  intro src negative
  obtain ⟨-, -, hsucceeds, hzero⟩ := @tones_across_cut [ColorMatrix.invert (1.0 : Float32)] src 2 1
    (by decide) (by decide) rfl
  obtain ⟨out, hsize, hout, hnegative, -⟩ := hsucceeds (by decide) (by decide) 3 (by decide)
  refine ⟨⟨out, hsize, hout, hnegative⟩, (hzero (by decide)).2.1.trans ?_⟩
  exact congrArg Except.ok (by decide +kernel)

end SceneCanvas
