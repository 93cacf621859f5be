import SceneCanvas.Font.Painter
import SceneCanvas.Proofs.Blend
import SceneCanvas.Proofs.EdgePadding

/-!
# Captions keep the shape of a surface

A caption is painted unless its text cannot be laid out, be it for the font size or because its face
cannot be registered (`Font.Shaper.layout_eq_error_iff`). The layers that it is put together from
all have the same size, so nothing that is done with them can fail (`Font.paintText_eq_error_iff`),
and painting keeps the sizes of the surface and of its buffer (`Font.shape_of_paintText_eq_ok`).
-/

namespace SceneCanvas.Font

open Asset (FontFace)
open Script (Caption)

/-! ### Faces -/

namespace Shaper

variable {shaper : Shaper}

/-- Whatever an engine knows of a face is what registering the face gives. -/
def Knows (shaper : Shaper) (known : Memo FontFace LoadedFace) : Prop :=
  ∀ face loaded, known.find? face = some loaded → shaper.registerFace face = .ok loaded

theorem knows_empty (shaper : Shaper) : shaper.Knows {} := fun _ _ h => nomatch h

/-- **A face is loaded as it is registered**, whether the engine has seen it before or not. In
particular a face that has been registered is found again. -/
theorem loadFace_spec {known : Memo FontFace LoadedFace} (h : shaper.Knows known)
    (face : FontFace) : (shaper.loadFace known face).1 = shaper.registerFace face ∧
      shaper.Knows (shaper.loadFace known face).2 := by
  rw [loadFace]
  cases hknown : known.find? face with
  | some loaded =>
    dsimp only
    rw [hknown]
    exact ⟨(h face loaded hknown).symm, h⟩
  | none =>
    cases hregister : shaper.registerFace face with
    | error e => exact ⟨rfl, h⟩
    | ok loaded =>
      have hfound (face' : FontFace) : (known.insert face loaded).find? face'
          = (known.find? face').or (if face' == face then some loaded else none) :=
        Memo.find?_insert ..
      have hloaded : (known.insert face loaded).find? face = some loaded := by
        rw [hfound, hknown, beq_self_eq_true]
        rfl
      simp only [Except.map, hloaded, true_and]
      intro face' loaded' hfind
      rw [hfound, Option.or_eq_some_iff] at hfind
      obtain hold | ⟨-, hnew⟩ := hfind
      · exact h face' loaded' hold
      · obtain ⟨hface, hloaded'⟩ := Option.ite_none_right_eq_some.mp hnew
        rw [eq_of_beq hface, ← Option.some.inj hloaded', hregister]

/-- Laying out fails for the font size, or else as registering the face does. -/
theorem layout_eq (shaper : Shaper) (face : FontFace) (text : String) (size : Float32)
    (bold : Bool) : shaper.layout face text size bold =
      if !size.isFinite || size ≤ 0.0 then .error .textSize
      else (shaper.registerFace face).map fun loaded =>
        ⟨shaper.shape loaded text size bold, loaded.face⟩ := by
  rw [layout, (loadFace_spec shaper.knows_empty face).1]
  cases shaper.registerFace face <;> rfl

/-- A face cannot be registered only for want of a family, or of its name. -/
theorem registerFace_eq_error_iff {face : FontFace} {e : SceneError} :
    shaper.registerFace face = .error e ↔
      (e = .noFontFamilies ∧ shaper.register face = []) ∨
        (e = .namelessFontFamily ∧ (shaper.register face).head? = some none) := by
  rw [registerFace]
  cases shaper.register face with
  | nil => simpa using eq_comm
  | cons family families =>
    cases family with
    | none => simpa using eq_comm
    | some family => simp

/-- **A text cannot be laid out** if its font size is no positive number, or else if the bytes of
its face hold no font family, or one without a name. -/
theorem layout_eq_error_iff {face : FontFace} {text : String} {size : Float32} {bold : Bool}
    {e : SceneError} : shaper.layout face text size bold = .error e ↔
      if !size.isFinite || size ≤ 0.0 then e = .textSize
      else (e = .noFontFamilies ∧ shaper.register face = []) ∨
        (e = .namelessFontFamily ∧ (shaper.register face).head? = some none) := by
  rw [layout_eq]
  split
  next => exact ⟨fun h => (Except.error.inj h).symm, fun h => h ▸ rfl⟩
  next =>
    rw [← registerFace_eq_error_iff]
    cases shaper.registerFace face with
    | error e' => rw [Except.map, Except.error.injEq, Except.error.injEq]
    | ok loaded => exact ⟨nofun, nofun⟩

theorem eq_of_layout_eq_error {face : FontFace} {text : String} {size : Float32} {bold : Bool}
    {e : SceneError} (h : shaper.layout face text size bold = .error e) :
    e = .textSize ∨ e = .noFontFamilies ∨ e = .namelessFontFamily := by
  rw [layout_eq_error_iff] at h
  split at h
  next => exact .inl h
  next => exact .inr (h.imp And.left And.left)

end Shaper

/-! ### The layers of a caption -/

@[simp] theorem size_alphaMask (layer : Buffer) : (alphaMask layer).size = layer.size / 4 :=
  Buffer.size_ofBytes ..

@[simp] theorem size_shiftMask (mask : Buffer) (w h dx dy : Nat) :
    (shiftMask mask w h dx dy).size = mask.size :=
  Buffer.size_ofBytes ..

@[simp] theorem size_spread (mask : Buffer) : (spread mask).size = 4 * mask.size :=
  Buffer.size_ofPixels ..

@[simp] theorem size_shadowLayer (mask : Buffer) : (shadowLayer mask).size = 4 * mask.size :=
  Buffer.size_ofPixels ..

/-- A mask of a size that a surface can have is softened. -/
theorem softenMask_eq_ok {mask : Buffer} {w h : Nat} (hsize : mask.size = w * h)
    (hw : w ≤ 65535) (hh : h ≤ 65535) (radius : Nat) {sigma : Float32}
    (hfinite : sigma.isFinite = true) (hpos : ¬ sigma ≤ 0.0) :
    ∃ soft, softenMask mask w h radius sigma = .ok soft ∧ soft.size = w * h := by
  obtain ⟨k, hk, -⟩ := Kernel.exists_gaussian_eq_ok hfinite hpos radius
  have harea : w * h * 4 ≤ 65535 * 65535 * 4 := Nat.mul_le_mul_right 4 (Nat.mul_le_mul hw hh)
  have hword : w * h * 4 < Word.count64 := Nat.lt_of_le_of_lt harea (by decide)
  have hspread : (spread mask).size = w * h * 4 := by rw [size_spread, hsize, Nat.mul_comm]
  refine ⟨alphaMask ((spread mask).convolve w h k), ?_, ?_⟩
  · rw [softenMask, Buffer.exactBlur_eq_ok hword hspread hk]
    rfl
  · rw [size_alphaMask, Buffer.size_convolve, Nat.mul_div_cancel _ (by decide)]

/-- Layers of one size are laid over each other. -/
theorem sourceOver_eq_ok {dst src : Buffer} {w h : Nat} (hdst : dst.size = 4 * (w * h))
    (hsrc : src.size = 4 * (w * h)) (opacity : Float32) :
    ∃ out, dst.sourceOver src opacity = .ok out ∧ out.size = 4 * (w * h) := by
  have hsizes : dst.size = src.size ∧ dst.size % 4 = 0 := by omega
  exact ⟨_, Buffer.sourceOver_eq_ok_iff.mpr ⟨hsizes, rfl⟩, (Buffer.size_overSpan ..).trans hdst⟩

variable (raster : Rasterizer)

/-- **The layer of a caption** can be painted, and has the size that it is asked for. -/
theorem captionLayer_eq_ok {w h : Nat} (hw : w ≤ 65535) (hh : h ≤ 65535)
    (lettering : Lettering) :
    ∃ layer, captionLayer raster w h lettering = .ok layer ∧ layer.size = 4 * (w * h) := by
  have hlayer (drawing : Drawing) : (raster.layer drawing w h).size = 4 * (w * h) :=
    raster.size_layer drawing w h hw hh
  have hmask : (alphaMask (raster.layer lettering.glyphs w h)).size = w * h := by
    rw [size_alphaMask, hlayer]
    omega
  have hfill : ((raster.layer lettering.gradient w h).maskWith
      (alphaMask (raster.layer lettering.glyphs w h))).size = 4 * (w * h) := by
    rw [Buffer.size_maskWith, hlayer]
  have hfinite : (1.0 : Float32).isFinite = true := by decide
  have hpos : ¬ (1.0 : Float32) ≤ 0.0 := by decide
  obtain ⟨soft, hsoft, hsoftSize⟩ :=
    softenMask_eq_ok ((size_shiftMask _ w h 1 2).trans hmask) hw hh 3 hfinite hpos
  have hshadow : (shadowLayer soft).size = 4 * (w * h) := by rw [size_shadowLayer, hsoftSize]
  obtain ⟨filled, hfilled, hfilledSize⟩ :=
    sourceOver_eq_ok (hlayer lettering.outline) hfill 1.0
  obtain ⟨shaded, hshaded, hshadedSize⟩ := sourceOver_eq_ok hfilledSize hshadow 0.25
  obtain ⟨layer, hlayer, hlayerSize⟩ := sourceOver_eq_ok hshadedSize hfill 1.0
  refine ⟨layer, ?_, hlayerSize⟩
  exact bind_eq_ok_iff.mpr ⟨soft, hsoft, bind_eq_ok_iff.mpr ⟨filled, hfilled,
    bind_eq_ok_iff.mpr ⟨shaded, hshaded, hlayer⟩⟩⟩

/-! ### Captions on a surface -/

/-- The rectangle that a caption needs on a surface, once its line has been laid out. -/
def frameOf (s : Surface) (caption : Caption) (line : LineBox Float) : Frame Float :=
  let how := caption.layout
  let anchor : Vec Float := ⟨s.size.x * how.position.x, s.size.y * how.position.y⟩
  layerFrame line (layoutOrigin line how.align how.baseline anchor)
    ((strokeWidth how.size).toFloat / 2.0)

/-- A caption is too large to paint in a face: its frame has a side beyond the longest one of a
layer. -/
def Oversized (shaper : Shaper) (face : FontFace) (s : Surface) (caption : Caption) : Prop :=
  ∀ shaped, shaper.layout face caption.text caption.layout.size caption.layout.bold = .ok shaped →
    ((frameOf s caption shaped.paragraph.lineBox).size.x > 65535.0 ||
      (frameOf s caption shaped.paragraph.lineBox).size.y > 65535.0) = true

section

variable {raster} {shaper : Shaper} {face : FontFace} {s : Surface} {caption : Caption}

theorem paintText_of_layout_eq_error {e : SceneError}
    (h : shaper.layout face caption.text caption.layout.size caption.layout.bold = .error e) :
    paintText raster shaper face s caption = .error e := by
  rw [paintText, h]
  rfl

section

variable {shaped : ShapedText}
  (h : shaper.layout face caption.text caption.layout.size caption.layout.bold = .ok shaped)

include h

/-- A caption that is too large leaves the surface as it is. -/
theorem paintText_eq_ok_self
    (hlarge : ((frameOf s caption shaped.paragraph.lineBox).size.x > 65535.0 ||
      (frameOf s caption shaped.paragraph.lineBox).size.y > 65535.0) = true) :
    paintText raster shaper face s caption = .ok s := by
  rw [paintText, h]
  exact if_pos hlarge

/-- A caption that is not too large is painted on a layer of the size of its frame, which is laid
over the surface. -/
theorem exists_paintText_eq_ok
    (hfits : ¬ ((frameOf s caption shaped.paragraph.lineBox).size.x > 65535.0 ||
      (frameOf s caption shaped.paragraph.lineBox).size.y > 65535.0) = true) :
    ∃ (layer : Buffer) (sw sh : Nat) (x y : Int), layer.size = 4 * (sw * sh) ∧
      paintText raster shaper face s caption =
        .ok { s with data := s.data.overAt s.width s.height layer sw sh x y } := by
  have hside (n : UInt16) : n.toNat ≤ 65535 := Nat.le_of_lt_succ n.toNat_lt
  -- only the size and the corner of the frame matter from here on
  obtain ⟨frame, hframe⟩ : ∃ frame, frameOf s caption shaped.paragraph.lineBox = frame := ⟨_, rfl⟩
  have hpaint : ∃ lettering : Lettering, paintText raster shaper face s caption =
      captionLayer raster frame.size.x.toUInt16.toNat frame.size.y.toUInt16.toNat lettering
        >>= fun layer => .ok { s with
          data := s.data.overAt s.width s.height layer frame.size.x.toUInt16.toNat
            frame.size.y.toUInt16.toNat frame.corner.x.toInt64.toInt
            frame.corner.y.toInt64.toInt } := by
    subst hframe
    exact ⟨_, by rw [paintText, h]; exact if_neg hfits⟩
  obtain ⟨lettering, hpaint⟩ := hpaint
  obtain ⟨layer, hlayer, hsize⟩ := captionLayer_eq_ok raster (hside frame.size.x.toUInt16)
    (hside frame.size.y.toUInt16) lettering
  exact ⟨layer, _, _, _, _, hsize, hpaint.trans (bind_eq_ok_iff.mpr ⟨layer, hlayer, rfl⟩)⟩

end

/-- Painting a caption fails as laying out its text does, and otherwise keeps the sizes. -/
theorem paintText_cases (raster : Rasterizer) (shaper : Shaper) (face : FontFace) (s : Surface)
    (caption : Caption) :
    (∃ e, shaper.layout face caption.text caption.layout.size caption.layout.bold = .error e ∧
        paintText raster shaper face s caption = .error e) ∨
      ∃ shaped t,
        shaper.layout face caption.text caption.layout.size caption.layout.bold = .ok shaped ∧
        paintText raster shaper face s caption = .ok t ∧
        t.width = s.width ∧ t.height = s.height ∧ t.data.size = s.data.size := by
  cases hlayout : shaper.layout face caption.text caption.layout.size caption.layout.bold with
  | error e => exact .inl ⟨e, rfl, paintText_of_layout_eq_error hlayout⟩
  | ok shaped =>
    by_cases hlarge : ((frameOf s caption shaped.paragraph.lineBox).size.x > 65535.0 ||
        (frameOf s caption shaped.paragraph.lineBox).size.y > 65535.0) = true
    · exact .inr ⟨shaped, s, rfl, paintText_eq_ok_self hlayout hlarge, rfl, rfl, rfl⟩
    · obtain ⟨layer, sw, sh, x, y, -, hok⟩ := exists_paintText_eq_ok hlayout hlarge
      exact .inr ⟨shaped, _, rfl, hok, rfl, rfl, Buffer.size_overAt ..⟩

/-- **A caption fails only where its text cannot be laid out.** -/
theorem paintText_eq_error_iff {e : SceneError} :
    paintText raster shaper face s caption = .error e ↔
      shaper.layout face caption.text caption.layout.size caption.layout.bold = .error e := by
  obtain ⟨e', hlayout, hpaint⟩ | ⟨shaped, t, hlayout, hpaint, -⟩ :=
    paintText_cases raster shaper face s caption
  · rw [hlayout, hpaint]
    exact ⟨fun h => by cases h; rfl, fun h => by cases h; rfl⟩
  · rw [hlayout, hpaint]
    exact ⟨nofun, nofun⟩

/-- **Painting a caption keeps the sizes** of the surface and of its buffer. -/
theorem shape_of_paintText_eq_ok {t : Surface}
    (h : paintText raster shaper face s caption = .ok t) :
    t.width = s.width ∧ t.height = s.height ∧ t.data.size = s.data.size := by
  obtain ⟨e, -, hpaint⟩ | ⟨shaped, t', -, hpaint, hshape⟩ :=
    paintText_cases raster shaper face s caption
  · rw [hpaint] at h
    cases h
  · rw [hpaint] at h
    cases h
    exact hshape

end

end SceneCanvas.Font
