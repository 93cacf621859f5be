import SceneCanvas.Proofs.Progress
import SceneCanvas.Proofs.SourceOver

/-!
# Covering only adds

Laying a pixel over another rounds twice: the source is scaled, and so is what shows through of the
destination. Rounding takes nothing away that the source does not bring: what a cover hides of a
byte is at most the cover itself (`toNat_le_add_mul255_rest`). So alpha does not fall, and nothing
needs to be premultiplied for it.

* `Buffer.Thickened` says that no pixel of a buffer has lost alpha. Every operation that blends
  keeps to it, wherever its source lies.
* `Script.Directive.Covers` are the directives that only blend. A step of that kind thickens the
  surface (`Render.Canvas.thickened_perform`), and so does any number of them.
* `Render.coverage_never_lost` puts both together.
-/

namespace SceneCanvas

/-! ### Bytes and pixels -/

/-- **What a cover hides** of a byte is at most the cover. -/
theorem toNat_le_add_mul255_rest (d cover : UInt8) :
    d.toNat ≤ cover.toNat + (mul255 d (255 - cover)).toNat := by
  have hd : d.toNat ≤ 255 := Nat.le_of_lt_succ d.toNat_lt
  have hcover : cover.toNat ≤ 255 := Nat.le_of_lt_succ cover.toNat_lt
  -- the byte is split into what is hidden and what shows through, before anything is rounded
  have hsplit : d.toNat * 255 = d.toNat * cover.toNat + d.toNat * (255 - cover.toNat) := by
    rw [← Nat.mul_add, Nat.add_sub_cancel' hcover]
  have hhidden : d.toNat * cover.toNat ≤ 255 * cover.toNat := Nat.mul_le_mul_right _ hd
  rw [toNat_mul255, toNat_rest]
  omega

theorem le_saturatingAdd_left (x y : UInt8) : x ≤ saturatingAdd x y := by
  have hx := x.toNat_lt
  rw [UInt8.le_iff_toNat_le, toNat_saturatingAdd]
  omega

theorem le_saturatingAdd_right (x y : UInt8) : y ≤ saturatingAdd x y := by
  have hy := y.toNat_lt
  rw [UInt8.le_iff_toNat_le, toNat_saturatingAdd]
  omega

namespace Pixel

/-- Laying over does not lower alpha. -/
theorem alpha_le_sourceOver (opacity : UInt8) (s d : Pixel) :
    d.a ≤ (sourceOver opacity s d).a := by
  rw [sourceOver]
  split
  next => exact UInt8.le_refl _
  next =>
    have hsum := toNat_le_add_mul255_rest d.a (mul255 s.a opacity)
    have hd := d.a.toNat_lt
    change d.a ≤ saturatingAdd (mul255 s.a opacity) (mul255 d.a (255 - mul255 s.a opacity))
    rw [UInt8.le_iff_toNat_le, toNat_saturatingAdd]
    omega

/-- Alpha is at least that of the scaled source. -/
theorem cover_le_sourceOver (opacity : UInt8) (s d : Pixel) :
    mul255 s.a opacity ≤ (sourceOver opacity s d).a := by
  rw [sourceOver]
  split
  next h => rw [h]; exact UInt8.zero_le
  next => exact le_saturatingAdd_left _ _

end Pixel

/-! ### Buffers -/

namespace Buffer

/-- The buffer `b'` is as long as `b`, and no pixel has less alpha. -/
structure Thickened (b b' : Buffer) : Prop where
  size_eq : b'.size = b.size
  alpha_le : ∀ p, (b.pixelAt p).a ≤ (b'.pixelAt p).a

/-- All pixels have the whole alpha. -/
def Solid (b : Buffer) : Prop := ∀ p < b.pixelCount, (b.pixelAt p).a = 255

instance (b : Buffer) : Decidable b.Solid :=
  inferInstanceAs (Decidable (∀ p < b.pixelCount, (b.pixelAt p).a = 255))

/-- The buffer `b'` is `b` after something of the alpha `cover` has been laid over or added. -/
structure Covered (b : Buffer) (cover : Nat → UInt8) (b' : Buffer) : Prop
    extends Thickened b b' where
  cover_le : ∀ p < b.pixelCount, cover p ≤ (b'.pixelAt p).a

namespace Thickened

variable {b b' b'' : Buffer}

theorem refl (b : Buffer) : b.Thickened b := ⟨rfl, fun _ => UInt8.le_refl _⟩

theorem trans (h : b.Thickened b') (h' : b'.Thickened b'') : b.Thickened b'' where
  size_eq := h'.size_eq.trans h.size_eq
  alpha_le p := UInt8.le_trans (h.alpha_le p) (h'.alpha_le p)

/-- It is enough to look at complete pixels, since behind them there is no alpha. -/
theorem of_pixels (hsize : b'.size = b.size)
    (h : ∀ p < b.pixelCount, (b.pixelAt p).a ≤ (b'.pixelAt p).a) : b.Thickened b' := by
  refine ⟨hsize, fun p => ?_⟩
  by_cases hp : p < b.pixelCount
  · exact h p hp
  · rw [alpha_pixelAt_eq_zero (Nat.le_of_not_lt hp)]
    exact UInt8.zero_le

/-- What cannot be seen through stays so. -/
theorem solid (h : b.Thickened b') (hb : b.Solid) : b'.Solid := by
  intro p hp
  rw [pixelCount_congr h.size_eq] at hp
  have hle := h.alpha_le p
  rw [hb p hp] at hle
  exact UInt8.le_antisymm (UInt8.le_iff_toNat_le.mpr (Nat.le_of_lt_succ (UInt8.toNat_lt _))) hle

end Thickened

section

variable (dst src : Buffer)

theorem thickened_overSpan (d s n : Nat) (opacity : UInt8) :
    dst.Thickened (dst.overSpan d src s n opacity) := by
  refine .of_pixels (size_overSpan ..) fun p hp => ?_
  rw [pixelAt_overSpan _ _ _ _ _ _ hp]
  split
  next => exact Pixel.alpha_le_sourceOver _ _ _
  next => exact UInt8.le_refl _

/-- The sizes that are given for the two buffers do not matter. -/
theorem thickened_overAt (dw dh sw sh : Nat) (x y : Int) :
    dst.Thickened (dst.overAt dw dh src sw sh x y) := by
  rw [overAt_eq_foldl]
  exact List.foldlRecOn _ _ (.refl dst) fun acc hacc span _ =>
    hacc.trans (thickened_overSpan acc src _ _ _ _)

theorem covered_fillOver (color : Pixel) : dst.Covered (fun _ => color.a) (dst.fillOver color) where
  toThickened := by
    refine .of_pixels (size_fillOver ..) fun p hp => ?_
    rw [pixelAt_fillOver _ _ hp]
    exact Pixel.alpha_le_sourceOver _ _ _
  cover_le p hp := by
    have hcover := Pixel.cover_le_sourceOver 255 color (dst.pixelAt p)
    rw [mul255_full] at hcover
    rwa [pixelAt_fillOver _ _ hp]

/-- Where a buffer is placed on another, alpha is at least that of the pixel placed there. -/
theorem alpha_le_overAt (dw dh sw sh : Nat) (x y : Int) {X Y sx sy : Nat} (hX : X < dw)
    (hY : Y < dh) (hp : Y * dw + X < dst.pixelCount) (hsx : sx < sw) (hsy : sy < sh)
    (hx : (X : Int) - x = sx) (hy : (Y : Int) - y = sy) :
    (src.pixelAt (sy * sw + sx)).a
      ≤ ((dst.overAt dw dh src sw sh x y).pixelAt (Y * dw + X)).a := by
  have hcover := Pixel.cover_le_sourceOver 255 (src.pixelAt (sy * sw + sx))
    (dst.pixelAt (Y * dw + X))
  rw [mul255_full] at hcover
  rwa [pixelAt_overAt_of_eq src hX hY hp hsx hsy hx hy]

variable {dst src} {out : Buffer} {opacity : Float32}

theorem covered_of_sourceOver_eq_ok (h : dst.sourceOver src opacity = .ok out) :
    dst.Covered (fun p => mul255 (src.pixelAt p).a (Pixel.fractionByte opacity)) out := by
  obtain ⟨-, rfl⟩ := sourceOver_eq_ok_iff.mp h
  refine ⟨thickened_overSpan .., fun p hp => ?_⟩
  rw [pixelAt_overSpan _ _ _ _ _ _ hp, if_pos (by omega), Nat.zero_add, Nat.sub_zero]
  exact Pixel.cover_le_sourceOver _ _ _

theorem covered_of_add_eq_ok (h : dst.add src opacity = .ok out) :
    dst.Covered (fun p => mul255 (src.pixelAt p).a (Pixel.fractionByte opacity)) out where
  toThickened := by
    refine .of_pixels (size_of_add_eq_ok h) fun p hp => ?_
    rw [pixelAt_of_add_eq_ok h hp]
    exact le_saturatingAdd_left _ _
  cover_le p hp := by
    rw [pixelAt_of_add_eq_ok h hp]
    exact le_saturatingAdd_right _ _

end

end Buffer

/-! ### Steps -/

/-- The directive blends something with the surface and does nothing else to it: an overlay, a
bloom, a picture, or a text, which is painted later. -/
def Script.Directive.Covers : Script.Directive → Prop
  | title _ | subtitle _ | dark _ | light _ | bloom .. | image _ => True
  | blur .. | zoom _ | grayscale _ | sepia _ | invert | hue _ => False

instance : DecidablePred Script.Directive.Covers
  | .title _ | .subtitle _ | .dark _ | .light _ | .bloom .. | .image _ =>
    inferInstanceAs (Decidable True)
  | .blur .. | .zoom _ | .grayscale _ | .sepia _ | .invert | .hue _ =>
    inferInstanceAs (Decidable False)

theorem Surface.thickened_of_drawLayer_eq_ok {raster : Rasterizer} {s t : Surface}
    {drawing : Drawing} (h : s.drawLayer raster drawing = .ok t) : s.data.Thickened t.data := by
  obtain ⟨_, -, h⟩ := bind_eq_ok_iff.mp h
  obtain ⟨out, hout, h⟩ := bind_eq_ok_iff.mp h
  cases h
  exact (Buffer.covered_of_sourceOver_eq_ok hout).toThickened

theorem Surface.thickened_of_drawPicture_eq_ok {raster : Rasterizer} {s t : Surface} {p : Picture}
    {map : Affine Float} (h : s.drawPicture raster p map = .ok t) : s.data.Thickened t.data := by
  rw [drawPicture] at h
  split at h
  next =>
    cases h
    exact .refl _
  next => exact thickened_of_drawLayer_eq_ok h

section

variable {raster : Rasterizer} {shaper : Font.Shaper} {s t : Surface} {caption : Script.Caption}

theorem Font.thickened_of_paintText_eq_ok {face : Asset.FontFace}
    (h : paintText raster shaper face s caption = .ok t) : s.data.Thickened t.data := by
  obtain ⟨line, -, h⟩ := bind_eq_ok_iff.mp h
  dsimp only at h
  split at h
  next =>
    cases h
    exact .refl _
  next =>
    obtain ⟨layer, -, h⟩ := bind_eq_ok_iff.mp h
    cases h
    exact Buffer.thickened_overAt ..

theorem Font.thickened_of_paint_eq_ok {book rest : Book} {family : String}
    (h : paint raster shaper book family s caption = (.ok t, rest)) :
    s.data.Thickened t.data := by
  rw [paint] at h
  split at h
  next => exact thickened_of_paintText_eq_ok (Prod.mk.inj h).1
  next =>
    obtain ⟨hsame, -⟩ := Prod.mk.inj h
    cases hsame
    exact .refl _

end

namespace Render

open Script (Caption Directive Plan)

/-- The step only covers. Captions do. -/
def Step.Covers : Step → Prop
  | .effect directive => directive.Covers
  | .caption _ => True

namespace Canvas

variable {r : Renderer}

/-- A surface that takes the place of another, unless there was a failure. -/
private theorem thickened_replaceSurface (c : Canvas) {e : Except SceneError Surface}
    (h : ∀ t, e = .ok t → c.surface.data.Thickened t.data) :
    c.surface.data.Thickened (c.replaceSurface c.surface e).1.surface.data := by
  cases e with
  | ok t => exact h t rfl
  | error e => exact .refl _

theorem thickened_bloom (c : Canvas) (pixels : UInt32) (alpha : Float32) :
    c.surface.data.Thickened (c.bloom pixels alpha).1.surface.data := by
  rw [bloom]
  cases hdata : (do
    let glow ← c.surface.data.paddedBlur c.surface.width c.surface.height pixels id
    c.surface.data.add glow alpha) with
  | error e => exact .refl _
  | ok data =>
    obtain ⟨glow, -, hadd⟩ := bind_eq_ok_iff.mp hdata
    exact (Buffer.covered_of_add_eq_ok hadd).toThickened

theorem thickened_drawImage (r : Renderer) (c : Canvas) (image : Script.ImageRef Float) :
    c.surface.data.Thickened (c.drawImage r image).1.surface.data := by
  rw [drawImage]
  generalize c.resources.assets.fetch r.storage image.key = fetched
  obtain ⟨found, assets⟩ := fetched
  cases found with
  | none => exact Buffer.Thickened.refl c.surface.data
  | some picture =>
    exact thickened_replaceSurface { c with resources.assets := assets } fun t ht =>
      Surface.thickened_of_drawPicture_eq_ok ht

theorem thickened_paint (r : Renderer) (c : Canvas) (caption : Caption) :
    c.surface.data.Thickened (c.paint r caption).1.surface.data := by
  rw [paint]
  cases hpaint :
    Font.paint r.raster r.shaper c.resources.fonts r.settings.defaultFont c.surface caption with
  | mk painted fonts =>
    refine thickened_replaceSurface { c with resources.fonts := fonts } fun t ht => ?_
    rw [ht] at hpaint
    exact Font.thickened_of_paint_eq_ok hpaint

/-- **One step** that only covers thickens the surface, also if it fails. -/
theorem thickened_perform (c : Canvas) {step : Step} (h : step.Covers) :
    c.surface.data.Thickened (c.perform r step).surface.data := by
  cases step with
  | caption caption => exact c.thickened_paint r caption
  | effect directive =>
    cases directive with
    | title | subtitle => exact .refl _
    | dark | light => exact (Buffer.covered_fillOver _ _).toThickened
    | bloom pixels alpha => exact c.thickened_bloom pixels alpha
    | image image => exact c.thickened_drawImage r image
    | blur | zoom | grayscale | sepia | invert | hue => exact absurd h not_false

/-- **Any number of steps** that only cover. -/
theorem thickened_afterAll (c : Canvas) {steps : List Step} (h : ∀ step ∈ steps, step.Covers) :
    c.surface.data.Thickened (c.afterAll r steps).surface.data := by
  induction steps generalizing c with
  | nil => exact .refl _
  | cons step rest ih =>
    have hfirst : c.surface.data.Thickened (c.perform r step).surface.data :=
      c.thickened_perform (h step List.mem_cons_self)
    exact hfirst.trans (ih (c.perform r step) fun s hs => h s (List.mem_cons_of_mem _ hs))

/-- A plan whose directives only cover is carried out by steps that do. -/
theorem covers_of_mem_stepsOf {settings : Settings} {plan : Plan}
    (h : ∀ directive ∈ plan.directives, directive.Covers) :
    ∀ step ∈ stepsOf settings plan, step.Covers := by
  intro step hstep
  rcases List.mem_append.mp hstep with hstep | hstep
  · obtain ⟨directive, hdirective, rfl⟩ := List.mem_map.mp hstep
    exact h directive hdirective
  · obtain ⟨caption, -, rfl⟩ := List.mem_map.mp hstep
    trivial

/-- A run of a plan whose directives only cover. -/
theorem thickened_run (poll : Poll) (c : Canvas) {plan : Plan}
    (h : ∀ directive ∈ plan.directives, directive.Covers) :
    c.surface.data.Thickened (c.run r poll plan).2.surface.data := by
  obtain ⟨k, hk⟩ : ∃ k, c.RunStopsAfter r poll plan k := exists_stopsAfter ..
  rw [run_eq hk, ← surface_prepare r c plan]
  exact thickened_afterAll _ fun step hstep =>
    covers_of_mem_stepsOf h step (List.mem_of_mem_take hstep)

end Canvas

/-- **Covering only adds.** Laying over and adding succeed on equally long buffers of complete
pixels, whatever their bytes are; the alpha of every pixel is then at least what it was, and at
least that of the scaled source. The same goes for one colour over a buffer, and for a buffer
placed anywhere on another, in the places that it covers. So the alpha of no pixel falls from one
step to a later one as long as the steps only cover, and a run of a plan that only covers leaves a
surface that could not be seen through as such, wherever it is told to stop. -/
theorem coverage_never_lost :
    (∀ (dst src : Buffer) (opacity : Float32),
      let cover (p : Nat) := mul255 (src.pixelAt p).a (Pixel.fractionByte opacity)
      (dst.size = src.size ∧ dst.size % 4 = 0 →
        (∃ out, dst.sourceOver src opacity = .ok out) ∧ ∃ out, dst.add src opacity = .ok out) ∧
      ∀ out, dst.sourceOver src opacity = .ok out ∨ dst.add src opacity = .ok out →
        dst.Covered cover out) ∧
    (∀ (dst : Buffer) (color : Pixel), dst.Covered (fun _ => color.a) (dst.fillOver color)) ∧
    (∀ (dst src : Buffer) (dw dh sw sh : Nat) (x y : Int),
      let out := dst.overAt dw dh src sw sh x y
      dst.Thickened out ∧
      ∀ X < dw, ∀ Y < dh, Y * dw + X < dst.pixelCount → ∀ sx < sw, ∀ sy < sh,
        (X : Int) - x = sx → (Y : Int) - y = sy →
        (src.pixelAt (sy * sw + sx)).a ≤ (out.pixelAt (Y * dw + X)).a) ∧
    ∀ (r : Renderer) (c : Canvas),
      (∀ steps : List Step, (∀ step ∈ steps, step.Covers) → ∀ i j, i ≤ j →
        (c.afterAll r (steps.take i)).surface.data.Thickened
          (c.afterAll r (steps.take j)).surface.data) ∧
      ∀ (poll : Poll) (plan : Plan), (∀ directive ∈ plan.directives, directive.Covers) →
        c.surface.data.Thickened (c.run r poll plan).2.surface.data ∧
        (c.surface.data.Solid → (c.run r poll plan).2.surface.data.Solid) := by
  refine ⟨?whole, fun dst color => dst.covered_fillOver color, ?placed, fun r c => ⟨?steps, ?run⟩⟩
  case whole =>
    intro dst src opacity cover
    refine ⟨fun hsizes => ?_, fun out hout => ?_⟩
    · exact ⟨⟨_, Buffer.sourceOver_eq_ok_iff.mpr ⟨hsizes, rfl⟩⟩,
        ⟨_, Buffer.add_eq_ok_iff.mpr ⟨hsizes, rfl⟩⟩⟩
    · rcases hout with hout | hout
      · exact Buffer.covered_of_sourceOver_eq_ok hout
      · exact Buffer.covered_of_add_eq_ok hout
  case placed =>
    intro dst src dw dh sw sh x y out
    refine ⟨dst.thickened_overAt src dw dh sw sh x y, ?_⟩
    intro X hX Y hY hp sx hsx sy hsy hx hy
    exact dst.alpha_le_overAt src dw dh sw sh x y hX hY hp hsx hsy hx hy
  case steps =>
    intro steps hsteps i j hij
    obtain ⟨k, rfl⟩ := Nat.exists_eq_add_of_le hij
    have hsplit : c.afterAll r (steps.take (i + k))
        = (c.afterAll r (steps.take i)).afterAll r ((steps.drop i).take k) := by
      rw [List.take_add, Canvas.afterAll, List.foldl_append]
      rfl
    rw [hsplit]
    exact Canvas.thickened_afterAll _ fun step hstep =>
      hsteps step (List.mem_of_mem_drop (List.mem_of_mem_take hstep))
  case run =>
    intro poll plan hplan
    have hrun := c.thickened_run (r := r) poll hplan
    exact ⟨hrun, hrun.solid⟩

/-- White that is not premultiplied over black and added to it, a row that hangs over the left edge,
and a scene of a shadow, a picture that is not there and a title. -/
theorem coverage_never_lost_night :
    let storage := Asset.Storage.ofTable []
    let r : Renderer := { settings := { sceneW := 1, sceneH := 1 }, storage }
    let c : Canvas := ⟨⟨1, 1, #[9, 9, 9, 255]⟩, {}⟩
    let plan := Plan.parse "DARK & bob & TITLE Night"
    (∃ out, Buffer.sourceOver #[0, 0, 0, 200] #[255, 255, 255, 100] 0.5 = .ok out ∧
      200 ≤ (out.pixelAt 0).a) ∧
    (∃ out, Buffer.add #[0, 0, 0, 20] #[255, 255, 255, 100] 1.0 = .ok out ∧
      mul255 100 (Pixel.fractionByte 1.0) ≤ (out.pixelAt 0).a) ∧
    7 ≤ ((Buffer.overAt #[0, 0, 0, 5] 1 1 #[0, 0, 0, 9, 1, 2, 3, 7] 2 1 (-1) 0).pixelAt 0).a ∧
    (c.afterAll r ((stepsOf r.settings plan).take 1)).surface.data.Thickened
      (c.afterAll r ((stepsOf r.settings plan).take 3)).surface.data ∧
    (c.run r .never plan).2.surface.data.Solid := by
  intro storage r c plan
  have hcovers : ∀ directive ∈ plan.directives, directive.Covers := by decide +kernel
  obtain ⟨hwhole, -, hplaced, hruns⟩ := coverage_never_lost
  obtain ⟨⟨out, hout⟩, -⟩ := (hwhole #[0, 0, 0, 200] #[255, 255, 255, 100] 0.5).1 (by decide)
  obtain ⟨-, sum, hsum⟩ := (hwhole #[0, 0, 0, 20] #[255, 255, 255, 100] 1.0).1 (by decide)
  refine ⟨⟨out, hout, ((hwhole _ _ _).2 out (.inl hout)).alpha_le 0⟩,
    ⟨sum, hsum, ((hwhole _ _ _).2 sum (.inr hsum)).cover_le 0 (by decide)⟩, ?_, ?_, ?_⟩
  · exact (hplaced #[0, 0, 0, 5] #[0, 0, 0, 9, 1, 2, 3, 7] 1 1 2 1 (-1) 0).2 0 (by decide) 0
      (by decide) (by decide) 1 (by decide) 0 (by decide) rfl rfl
  · exact (hruns r c).1 _ (Canvas.covers_of_mem_stepsOf hcovers) 1 3 (by decide)
  · exact ((hruns r c).2 .never plan hcovers).2 (by decide)

end Render

end SceneCanvas
