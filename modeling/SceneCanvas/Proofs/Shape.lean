import SceneCanvas.Proofs.Caption
import SceneCanvas.Proofs.Checked
import SceneCanvas.Proofs.Progress
import SceneCanvas.Proofs.Sequencing
import SceneCanvas.Proofs.Transparency

/-!
# Surfaces keep their shape

A surface that fits its settings has their sizes and a buffer of just that many bytes. Everything
that a scene can ask for keeps it so and cannot fail: the deviations of blurs are held to what the
arithmetic can bear when a scene is read, and the sizes when the settings are checked. Only a
caption can fail, and then it leaves the surface as it is.

* `Render.Canvas.carryOut?` is a directive, checked: it has no result as soon as an index is out of
  range, a size is no machine word, or an operation refuses its arguments.
* `Render.Canvas.Fits.apply` is one step, `Render.Canvas.Fits.after` any number of them.
* `Render.shape_preserved` puts together whole runs, from any cache that renders can lead to.
-/

namespace SceneCanvas

/-! ### Layers and pictures of a given size -/

namespace ColorMatrix

variable {α : Type} [Scalar α]

/-- `ColorMatrix.apply`, checked. -/
def recolor? (m : ColorMatrix α) (b : Buffer) : Option Buffer := b.mapPixels? m.applyPixel

theorem recolor?_eq_some (m : ColorMatrix α) (b : Buffer) :
    m.recolor? b = some (m.apply b) ∧ (m.apply b).size = b.size :=
  ⟨Buffer.mapPixels?_eq_some _ _, Buffer.size_mapPixels ..⟩

end ColorMatrix

/-- A decoded picture has just the bytes of its pixels. -/
def Picture.Shaped (p : Picture) : Prop := p.data.size = 4 * (p.width * p.height)

instance (p : Picture) : Decidable p.Shaped := inferInstanceAs (Decidable (_ = _))

theorem Asset.Storage.shaped_of_fetch?_eq_some {storage : Asset.Storage} {identifier : String}
    {picture : Picture} (h : storage.fetch? identifier = some picture) : picture.Shaped := by
  obtain ⟨path, -, hpicture⟩ := Option.bind_eq_some_iff.mp h
  rw [Storage.picture?] at hpicture
  cases hread : storage.read path with
  | error e => rw [hread] at hpicture; cases hpicture
  | ok file =>
    rw [hread] at hpicture
    cases file with
    | image width height channels samples =>
      cases hpicture
      exact Buffer.size_ofPixels ..
    | font face => cases hpicture
    | bytes content => cases hpicture

namespace Surface

/-- The surface has the given sizes, and its buffer has just the bytes of its pixels. -/
structure Sized (s : Surface) (w h : Nat) : Prop where
  width_eq : s.width = w
  height_eq : s.height = h
  shaped : s.Shaped

/-- `Surface.drawLayer`, checked; the sides have to be those of a layer. -/
def drawLayer? (s : Surface) (raster : Rasterizer) (drawing : Drawing) : Option Surface :=
  if maxSide < s.width ∨ maxSide < s.height then none
  else do
    let layer := raster.layer drawing s.width s.height
    return { s with data := ← s.data.sourceOver? layer 1.0 }

/-- `Surface.drawPicture`, checked; a picture is handed over with just the bytes of its pixels. -/
def drawPicture? (s : Surface) (raster : Rasterizer) (p : Picture) (map : Affine Float) :
    Option Surface :=
  if maxSide < p.width ∨ maxSide < p.height then some s
  else if p.Shaped then s.drawLayer? raster (.picture p map) else none

/-- `Surface.redraw`, checked. -/
def redraw? (s : Surface) (raster : Rasterizer) (map : Affine Float) : Option Surface :=
  let held : Picture := ⟨s.width, s.height, s.data⟩
  if held.Shaped then s.clear.drawLayer? raster (.picture held map) else none

namespace Sized

variable {s : Surface} {w h : Nat}

theorem size_data (hs : s.Sized w h) : s.data.size = 4 * (w * h) := by
  rw [← hs.width_eq, ← hs.height_eq]
  exact hs.shaped

/-- New bytes, as many as before. -/
theorem withData (hs : s.Sized w h) {data : Buffer} (hdata : data.size = 4 * (w * h)) :
    Sized { s with data } w h where
  width_eq := hs.width_eq
  height_eq := hs.height_eq
  shaped := by rw [Shaped, hdata, hs.width_eq, hs.height_eq]

theorem clear (hs : s.Sized w h) : s.clear.Sized w h :=
  hs.withData ((Buffer.size_zeros _).trans hs.size_data)

theorem drawLayer (hs : s.Sized w h) (hw : w ≤ 65535) (hh : h ≤ 65535) (raster : Rasterizer)
    (drawing : Drawing) : ∃ t, s.drawLayer raster drawing = .ok t ∧
      s.drawLayer? raster drawing = some t ∧ t.Sized w h := by
  have hwidth : s.layerWidth = w := by rw [layerWidth, hs.width_eq, maxSide]; omega
  have hheight : s.layerHeight = h := by rw [layerHeight, hs.height_eq, maxSide]; omega
  have hdata := hs.size_data
  have hsize : s.data.size = (raster.layer drawing w h).size := by
    rw [raster.size_layer drawing w h hw hh, hdata]
  obtain ⟨out, hout, hout?, houtSize⟩ := Buffer.sourceOver?_eq_some hsize (by omega) 1.0
  refine ⟨{ s with data := out }, ?_, ?_, hs.withData (houtSize.trans hdata)⟩
  · rw [Surface.drawLayer, hwidth, hheight]
    have hchecked := (Buffer.checkSizes_eq_ok_iff "over_in_place").mpr
      (⟨hdata, by omega⟩ : s.data.size = 4 * (w * h) ∧ s.data.size % 4 = 0)
    exact bind_eq_ok_iff.mpr ⟨(), hchecked, bind_eq_ok_iff.mpr ⟨out, hout, rfl⟩⟩
  · rw [drawLayer?, hs.width_eq, hs.height_eq, maxSide, if_neg (by omega)]
    exact bind_eq_some_of_eq hout? rfl

theorem drawPicture (hs : s.Sized w h) (hw : w ≤ 65535) (hh : h ≤ 65535) (raster : Rasterizer)
    {p : Picture} (hp : p.Shaped) (map : Affine Float) :
    ∃ t, s.drawPicture raster p map = .ok t ∧ s.drawPicture? raster p map = some t ∧
      t.Sized w h := by
  rw [Surface.drawPicture, drawPicture?, if_pos hp]
  split
  next => exact ⟨s, rfl, rfl, hs⟩
  next => exact hs.drawLayer hw hh raster _

theorem redraw (hs : s.Sized w h) (hw : w ≤ 65535) (hh : h ≤ 65535) (raster : Rasterizer)
    (map : Affine Float) :
    ∃ t, s.redraw raster map = .ok t ∧ s.redraw? raster map = some t ∧ t.Sized w h := by
  have hheld : (⟨s.width, s.height, s.data⟩ : Picture).Shaped := hs.shaped
  rw [Surface.redraw, redraw?, if_pos hheld]
  exact hs.clear.drawLayer hw hh raster _

theorem drawDisc (hs : s.Sized w h) (hw : w ≤ 65535) (hh : h ≤ 65535) (raster : Rasterizer)
    (center : Vec Float) (radius : Float) (color : Pixel) :
    ∃ t, s.drawDisc raster center radius color = .ok t ∧ t.Sized w h := by
  obtain ⟨t, ht, -, hsized⟩ := hs.drawLayer hw hh raster (.disc center radius color)
  exact ⟨t, ht, hsized⟩

end Sized

/-- Sides that a surface can have make a transparent surface. -/
theorem exists_blank_eq_ok {w h : Nat} (hw : 0 < w ∧ w ≤ 65535) (hh : 0 < h ∧ h ≤ 65535) :
    ∃ s, blank w h = .ok s ∧ s.Sized w h := by
  have hmax : maxSide = 65535 := rfl
  rw [blank, if_neg (by omega), if_neg (by omega)]
  exact ⟨_, rfl, rfl, rfl, Buffer.size_zeros _⟩

end Surface

/-! ### Settings and directives that have been checked -/

theorem Settings.side_of_checkSide_eq_ok {name : String} {value : UInt32}
    (h : checkSide name value = .ok ()) : 0 < value.toNat ∧ value.toNat ≤ 65535 := by
  rw [checkSide] at h
  split at h
  next => cases h
  next hside =>
    obtain ⟨hzero, hlarge⟩ := not_or.mp hside
    refine ⟨Nat.pos_of_ne_zero fun hvalue => hzero (UInt32.toNat_inj.mp hvalue), ?_⟩
    exact Nat.not_lt.mp fun hvalue => hlarge (UInt32.lt_iff_toNat_lt.mpr hvalue)

/-- Settings that have been checked have sides that a surface can have. -/
theorem Settings.sides_of_validate_eq_ok {settings : Settings} (h : settings.validate = .ok ()) :
    (0 < settings.sceneW.toNat ∧ settings.sceneW.toNat ≤ 65535) ∧
      (0 < settings.sceneH.toNat ∧ settings.sceneH.toNat ≤ 65535) := by
  obtain ⟨_, hwidth, hheight⟩ := bind_eq_ok_iff.mp h
  exact ⟨side_of_checkSide_eq_ok hwidth, side_of_checkSide_eq_ok hheight⟩

namespace Script

/-- The deviations of a directive are ones that a scene can name. -/
def Directive.Moderate : Directive → Prop
  | blur pixels _ => pixels ≤ maxBlur
  | bloom pixels _ => 1 ≤ pixels ∧ pixels ≤ maxBlur
  | _ => True

theorem Directive.deviation_le (line : Line) {default : UInt32} (hdefault : default ≤ maxBlur) :
    deviation line default ≤ maxBlur := by
  rw [deviation]
  split
  next n _ =>
    have hmax : maxBlur.toNat = 128 := rfl
    have hheld : (max 0 (min n maxBlur.toNat)).toNat ≤ 128 := by omega
    rw [UInt32.le_iff_toNat_le, hmax, Nat.toUInt32, UInt32.toNat_ofNat']
    exact Nat.le_trans (Nat.mod_le _ _) hheld
  next => exact hdefault

private theorem le_max_le {x y bound : UInt32} (hx : x ≤ bound) (hy : y ≤ bound) :
    y ≤ max x y ∧ max x y ≤ bound := by
  have hmax : max x y = if x ≤ y then y else x := rfl
  rw [hmax]
  simp only [UInt32.le_iff_toNat_le] at hx hy ⊢
  split <;> omega

/-- **What a line asks for is moderate.** -/
theorem Directive.moderate_of_ofLine?_eq_some {line : Line} {directive : Directive}
    (h : ofLine? line = some directive) : directive.Moderate := by
  have hdeviation : deviation line 8 ≤ maxBlur := deviation_le line (by decide)
  rw [ofLine?] at h
  cases hcommand : line.command? with
  | none => rw [hcommand] at h; cases h
  | some command =>
    rw [hcommand] at h
    dsimp only [bind, Option.bind] at h
    split at h
    -- the commands that take a text, then `blur` and `bloom`; no other one has a deviation
    case h_1 | h_2 | h_3 | h_4 =>
      cases htext : textLine? line.rest with
      | none => rw [htext] at h; cases h
      | some text => rw [htext] at h; cases h; trivial
    case h_7 => cases h; exact hdeviation
    case h_8 => cases h; exact le_max_le hdeviation (by decide)
    all_goals
      cases h
      trivial

/-- Some line spells the directive. -/
def Directive.Spelled (directive : Directive) : Prop := ∃ line, ofLine? line = some directive

theorem Directive.Spelled.moderate {directive : Directive} (h : directive.Spelled) :
    directive.Moderate :=
  h.elim fun _ hline => moderate_of_ofLine?_eq_some hline

/-- The directives of a plan are spelled by lines of its source. -/
theorem Plan.spelled_of_mem_parse {source : String} {directive : Directive}
    (h : directive ∈ (parse source).directives) : directive.Spelled := by
  rw [parse, ofChars_eq] at h
  obtain ⟨spelled, hspelled, heffect⟩ := List.mem_filterMap.mp h
  obtain ⟨line, -, hline⟩ := List.mem_filterMap.mp hspelled
  -- only titles and subtitles are taken out of the directives, and the others stay as they are
  have hdirective : spelled = directive := by
    cases spelled <;> cases heffect <;> rfl
  exact ⟨_, hdirective ▸ hline⟩

end Script

namespace Render

open Script (Caption Directive Plan)

/-! ### Directives, checked -/

namespace Canvas

/-- Take over new pixels, which have to be there. -/
def withData? (c : Canvas) (data : Option Buffer) : Option Canvas :=
  data.map fun data => c.mapData fun _ => data

/-- Take over a new surface, which has to be there. -/
def withSurface? (c : Canvas) (surface : Option Surface) : Option Canvas :=
  surface.map fun surface => { c with surface }

/-- `Canvas.blur`, checked. -/
def blur? (c : Canvas) (pixels : UInt32) (tones : List (Tone Float32)) : Option Canvas :=
  let adjust? (b : Buffer) : Option Buffer :=
    tones.foldlM (fun b t => (ColorMatrix.ofTone t).recolor? b) b
  if pixels = 0 then c.withData? (adjust? c.surface.data)
  else c.withData?
    (c.surface.data.paddedBlur? c.surface.width c.surface.height pixels adjust?)

/-- `Canvas.bloom`, checked. -/
def bloom? (c : Canvas) (pixels : UInt32) (alpha : Float32) : Option Canvas :=
  c.withData? do
    let glow ← c.surface.data.paddedBlur? c.surface.width c.surface.height pixels some
    c.surface.data.add? glow alpha

/-- `Canvas.zoom`, checked. -/
def zoom? (raster : Rasterizer) (c : Canvas) (z : Script.Zoom Float) : Option Canvas :=
  match z.transform? c.surface.size with
  | none => some c
  | some map =>
    if Script.isNearIdentity map then some c else c.withSurface? (c.surface.redraw? raster map)

/-- `Canvas.drawImage`, checked. -/
def drawImage? (r : Renderer) (c : Canvas) (image : Script.ImageRef Float) : Option Canvas :=
  let next : Canvas :=
    { c with resources.assets := (c.resources.assets.fetch r.storage image.key).2 }
  match (c.resources.assets.fetch r.storage image.key).1 with
  | none => some next
  | some picture => next.withSurface?
      (c.surface.drawPicture? r.raster picture
        (image.placement.transform c.surface.size picture.size))

/-- Carry out one directive, checked: there is a result only if no index is out of range, no size is
beyond its word, and no operation refuses its arguments. -/
def carryOut? (r : Renderer) (c : Canvas) : Directive → Option Canvas
  | .title _ | .subtitle _ => some c
  | .dark amount => c.withData? (c.surface.data.fillOver? (.withAlpha 0 0 0 amount))
  | .light amount => c.withData? (c.surface.data.fillOver? (.withAlpha 255 255 255 amount))
  | .blur pixels tones => c.blur? pixels tones
  | .bloom pixels alpha => c.bloom? pixels alpha
  | .zoom z => c.zoom? r.raster z
  | .grayscale amount =>
    c.withData? ((ColorMatrix.grayscale (amount / 100.0)).recolor? c.surface.data)
  | .sepia amount => c.withData? ((ColorMatrix.sepia (amount / 100.0)).recolor? c.surface.data)
  | .invert => c.withData? ((ColorMatrix.invert (1.0 : Float32)).recolor? c.surface.data)
  | .hue degrees => c.withData? ((ColorMatrix.hueRotate degrees).recolor? c.surface.data)
  | .image image => c.drawImage? r image

/-! ### One step -/

/-- The canvas suits its renderer: the surface has the sizes of the settings, and the cache agrees
with the storage. -/
structure Fits (r : Renderer) (c : Canvas) : Prop where
  sized : c.surface.Sized r.settings.sceneW.toNat r.settings.sceneH.toNat
  coherent : c.resources.assets.Coherent r.storage

/-- Carried out with all checks, something has this outcome: it has not failed, and the canvas suits
its renderer. -/
def Safe (r : Renderer) (checked : Option Canvas) (outcome : Outcome) : Prop :=
  checked = some outcome.1 ∧ outcome.2 = none ∧ outcome.1.Fits r

namespace Fits

variable {r : Renderer} {c : Canvas}

theorem safe_done (h : c.Fits r) : Safe r (some c) c.done := ⟨rfl, rfl, h⟩

/-- As many new bytes as there were. -/
theorem safe_mapData (h : c.Fits r) {checked : Option Buffer} {f : Buffer → Buffer}
    (hdata : checked = some (f c.surface.data) ∧ (f c.surface.data).size = c.surface.data.size) :
    Safe r (c.withData? checked) (c.mapData f).done := by
  obtain ⟨rfl, hsize⟩ := hdata
  exact ⟨rfl, rfl, h.sized.withData (hsize.trans h.sized.size_data), h.coherent⟩

theorem safe_replaceData (h : c.Fits r) {checked : Option Buffer}
    {computed : Except SceneError Buffer}
    (hdata : ∃ data, computed = .ok data ∧ checked = some data ∧
      data.size = 4 * (r.settings.sceneW.toNat * r.settings.sceneH.toNat)) :
    Safe r (c.withData? checked) (c.replaceData computed) := by
  obtain ⟨data, rfl, rfl, hsize⟩ := hdata
  exact ⟨rfl, rfl, h.sized.withData hsize, h.coherent⟩

theorem safe_replaceSurface (h : c.Fits r) {checked : Option Surface}
    {drawn : Except SceneError Surface} (spoilt : Surface)
    (hsurface : ∃ t, drawn = .ok t ∧ checked = some t ∧
      t.Sized r.settings.sceneW.toNat r.settings.sceneH.toNat) :
    Safe r (c.withSurface? checked) (c.replaceSurface spoilt drawn) := by
  obtain ⟨t, rfl, rfl, hsized⟩ := hsurface
  exact ⟨rfl, rfl, hsized, h.coherent⟩

end Fits

/-- Changing tones one after the other. -/
theorem foldlM_recolor? (tones : List (Tone Float32)) (b : Buffer) :
    tones.foldlM (fun b t => (ColorMatrix.ofTone t).recolor? b) b
        = some (tones.foldl (fun b t => (ColorMatrix.ofTone t).apply b) b) ∧
      (tones.foldl (fun b t => (ColorMatrix.ofTone t).apply b) b).size = b.size := by
  refine foldlM_eq_some (fun acc : Buffer => acc.size = b.size) rfl fun t _ acc hacc => ?_
  obtain ⟨hchecked, hsize⟩ := (ColorMatrix.ofTone t).recolor?_eq_some acc
  exact ⟨hchecked, hsize.trans hacc⟩

namespace Fits

variable {r : Renderer} {c : Canvas} (hvalid : r.settings.validate = .ok ())
include hvalid

theorem blur (h : c.Fits r) {pixels : UInt32} (hpixels : pixels ≤ Script.maxBlur)
    (tones : List (Tone Float32)) : Safe r (c.blur? pixels tones) (c.blur pixels tones) := by
  obtain ⟨hwidth, hheight⟩ := Settings.sides_of_validate_eq_ok hvalid
  rw [blur?, Canvas.blur]
  dsimp only
  split
  next => exact h.safe_mapData (foldlM_recolor? tones _)
  next =>
    rw [h.sized.width_eq, h.sized.height_eq]
    exact h.safe_replaceData (Buffer.paddedBlur?_eq_some hwidth hheight h.sized.size_data hpixels
      (foldlM_recolor? tones))

theorem bloom (h : c.Fits r) {pixels : UInt32} (hpixels : pixels ≤ Script.maxBlur)
    (alpha : Float32) : Safe r (c.bloom? pixels alpha) (c.bloom pixels alpha) := by
  obtain ⟨hwidth, hheight⟩ := Settings.sides_of_validate_eq_ok hvalid
  rw [bloom?, Canvas.bloom, h.sized.width_eq, h.sized.height_eq]
  refine h.safe_replaceData ?_
  have hdata := h.sized.size_data
  obtain ⟨glow, hglow, hglow?, hglowSize⟩ :=
    Buffer.paddedBlur?_eq_some hwidth hheight hdata hpixels fun b => ⟨rfl, rfl⟩
  obtain ⟨out, hout, hout?, houtSize⟩ :=
    Buffer.add?_eq_some (hdata.trans hglowSize.symm) (by omega) alpha
  exact ⟨out, bind_eq_ok_iff.mpr ⟨glow, hglow, hout⟩, bind_eq_some_of_eq hglow? hout?,
    houtSize.trans hdata⟩

theorem zoom (h : c.Fits r) (z : Script.Zoom Float) :
    Safe r (c.zoom? r.raster z) (c.zoom r.raster z) := by
  obtain ⟨hwidth, hheight⟩ := Settings.sides_of_validate_eq_ok hvalid
  rw [zoom?, Canvas.zoom]
  cases z.transform? c.surface.size with
  | none => exact h.safe_done
  | some map =>
    dsimp only
    split
    next => exact h.safe_done
    next => exact h.safe_replaceSurface _ (h.sized.redraw hwidth.2 hheight.2 r.raster map)

theorem drawImage (h : c.Fits r) (image : Script.ImageRef Float) :
    Safe r (c.drawImage? r image) (c.drawImage r image) := by
  obtain ⟨hwidth, hheight⟩ := Settings.sides_of_validate_eq_ok hvalid
  obtain ⟨hfound, hassets⟩ := Asset.Cache.fetch_spec h.coherent image.key
  -- the canvas after the lookup, before anything is drawn
  have hnext : Fits r
      { c with resources.assets := (c.resources.assets.fetch r.storage image.key).2 } :=
    ⟨h.sized, hassets⟩
  rw [drawImage?, drawImage_eq, hfound]
  cases hpicture : r.storage.fetch? image.key with
  | none => exact hnext.safe_done
  | some picture =>
    exact hnext.safe_replaceSurface _ (h.sized.drawPicture hwidth.2 hheight.2 r.raster
      (Asset.Storage.shaped_of_fetch?_eq_some hpicture) _)

/-- **A directive that a scene can spell** keeps to its buffers, does not fail, and keeps the shape
of the surface. -/
theorem apply (h : c.Fits r) {directive : Directive} (hdirective : directive.Moderate) :
    Safe r (c.carryOut? r directive) (c.apply r directive) := by
  have hfill (color : Pixel) := h.safe_mapData (f := (·.fillOver color))
    ⟨Buffer.fillOver?_eq_some _ _, Buffer.size_fillOver ..⟩
  have hrecolor (m : ColorMatrix Float32) := h.safe_mapData (m.recolor?_eq_some _)
  cases directive with
  | title line | subtitle line => exact h.safe_done
  | dark amount | light amount => exact hfill _
  | grayscale amount | sepia amount | invert | hue degrees => exact hrecolor _
  | blur pixels tones => exact h.blur hvalid hdirective tones
  | bloom pixels alpha => exact h.bloom hvalid hdirective.2 alpha
  | zoom z => exact h.zoom hvalid z
  | image image => exact h.drawImage hvalid image

end Fits

/-! ### Captions -/

/-- The face that a caption is painted in. -/
def faceFor (r : Renderer) (c : Canvas) (caption : Caption) : Option Asset.FontFace :=
  (c.resources.fonts.resolve r.settings.defaultFont caption.layout.bold).1

section

variable {r : Renderer} {c : Canvas} {caption : Caption}

/-- Without a face nothing is painted. -/
theorem exists_paint_eq_of_none (h : c.faceFor r caption = none) :
    ∃ fonts, c.paint r caption = ({ c with resources.fonts := fonts }, none) := by
  rw [faceFor] at h
  rw [paint_eq, Font.paint]
  -- the hypothesis speaks of the lookup that painting begins with
  generalize c.resources.fonts.resolve r.settings.defaultFont caption.layout.bold = resolved at h
  obtain ⟨found, fonts⟩ := resolved
  obtain rfl : found = none := h
  exact ⟨fonts, rfl⟩

/-- With a face the caption is painted in it. -/
theorem exists_paint_eq_of_some {face : Asset.FontFace} (h : c.faceFor r caption = some face) :
    ∃ fonts, c.paint r caption =
      ({ c with resources.fonts := fonts } : Canvas).replaceSurface c.surface
        (Font.paintText r.raster r.shaper face c.surface caption) := by
  rw [faceFor] at h
  rw [paint_eq, Font.paint]
  generalize c.resources.fonts.resolve r.settings.defaultFont caption.layout.bold = resolved at h
  obtain ⟨found, fonts⟩ := resolved
  obtain rfl : found = some face := h
  exact ⟨fonts, rfl⟩

/-- What painting a caption comes to on a canvas: it succeeds with a surface of the same shape, or
it fails because its text cannot be laid out in its face and leaves the surface as it is. -/
theorem paint_cases (r : Renderer) (c : Canvas) (caption : Caption) :
    ((c.paint r caption).2 = none ∧
        (c.paint r caption).1.surface.width = c.surface.width ∧
        (c.paint r caption).1.surface.height = c.surface.height ∧
        (c.paint r caption).1.surface.data.size = c.surface.data.size) ∨
      ∃ e face, (c.paint r caption).2 = some e ∧ (c.paint r caption).1.surface = c.surface ∧
        c.faceFor r caption = some face ∧
        r.shaper.layout face caption.text caption.layout.size caption.layout.bold = .error e := by
  cases hface : c.faceFor r caption with
  | none =>
    obtain ⟨fonts, hpaint⟩ := exists_paint_eq_of_none hface
    rw [hpaint]
    exact .inl ⟨rfl, rfl, rfl, rfl⟩
  | some face =>
    obtain ⟨fonts, hpaint⟩ := exists_paint_eq_of_some hface
    rw [hpaint]
    cases htext : Font.paintText r.raster r.shaper face c.surface caption with
    | ok t => exact .inl ⟨rfl, Font.shape_of_paintText_eq_ok htext⟩
    | error e => exact .inr ⟨e, face, rfl, rfl, rfl, Font.paintText_eq_error_iff.mp htext⟩

/-- A caption that is too large is not painted. -/
theorem paint_of_oversized {face : Asset.FontFace} (hface : c.faceFor r caption = some face)
    (h : Font.Oversized r.shaper face c.surface caption) :
    (c.paint r caption).1.surface = c.surface := by
  obtain ⟨fonts, hpaint⟩ := exists_paint_eq_of_some hface
  rw [hpaint]
  cases hlayout : r.shaper.layout face caption.text caption.layout.size caption.layout.bold with
  | error e =>
    rw [Font.paintText_of_layout_eq_error hlayout]
    rfl
  | ok shaped =>
    rw [Font.paintText_eq_ok_self hlayout (h shaped hlayout)]
    rfl

end

theorem assets_paint (r : Renderer) (c : Canvas) (caption : Caption) :
    (c.paint r caption).1.resources.assets = c.resources.assets := by
  rw [paint_eq]
  generalize
    Font.paint r.raster r.shaper c.resources.fonts r.settings.defaultFont c.surface caption
      = painting
  obtain ⟨surface | e, fonts⟩ := painting <;> rfl

theorem Fits.paint {r : Renderer} {c : Canvas} (h : c.Fits r) (caption : Caption) :
    (c.paint r caption).1.Fits r := by
  refine ⟨?_, assets_paint r c caption ▸ h.coherent⟩
  obtain ⟨-, hwidth, hheight, hsize⟩ | ⟨e, face, -, hsurface, -⟩ := paint_cases r c caption
  · refine ⟨hwidth.trans h.sized.width_eq, hheight.trans h.sized.height_eq, ?_⟩
    rw [Surface.Shaped, hwidth, hheight, hsize]
    exact h.sized.shaped
  · exact hsurface ▸ h.sized

/-! ### Runs, step by step -/

namespace Fits

variable {r : Renderer} {c : Canvas}

theorem prepare (h : c.Fits r) (plan : Plan) : (c.prepare r plan).Fits r := by
  have halike := alike_prepare h.coherent plan
  exact ⟨halike.surface_eq ▸ h.sized, halike.coherent⟩

/-- **Any number of steps** of a plan that a scene can spell keep the shape of the surface. -/
theorem after (hvalid : r.settings.validate = .ok ()) (h : c.Fits r) {plan : Plan}
    (hplan : ∀ directive ∈ plan.directives, directive.Moderate) (k : Nat) :
    (c.after r plan k).Fits r := by
  refine List.foldlRecOn _ _ (h.prepare plan) fun c' hc' step hstep => ?_
  -- a step of the plan is a directive that is moderate, or a caption
  obtain hstep | hstep := List.mem_append.mp (List.mem_of_mem_take hstep)
  · obtain ⟨directive, hdirective, rfl⟩ := List.mem_map.mp hstep
    exact (hc'.apply hvalid (hplan directive hdirective)).2.2
  · obtain ⟨caption, -, rfl⟩ := List.mem_map.mp hstep
    exact hc'.paint caption

end Fits

end Canvas

/-! ### Whole runs -/

namespace Runner

/-- Every runner has a canvas to start on. -/
theorem exists_start_eq_ok (r : Runner) (resources : Resources) :
    ∃ c, r.start resources = .ok c ∧
      c.surface.Sized r.settings.sceneW.toNat r.settings.sceneH.toNat := by
  obtain ⟨hwidth, hheight⟩ := Settings.sides_of_validate_eq_ok r.valid
  obtain ⟨surface, hsurface, hsized⟩ := Surface.exists_blank_eq_ok hwidth hheight
  have hblank : r.blank resources = .ok ⟨surface, resources⟩ :=
    bind_eq_ok_iff.mpr ⟨surface, hsurface, rfl⟩
  obtain ⟨marked, hmarked, hmarkedSized⟩ := hsized.drawDisc hwidth.2 hheight.2 r.raster
    ⟨surface.size.x / 2.0, surface.size.y / 2.0⟩ Canvas.markerRadius Canvas.markerColor
  have hmarker : Canvas.drawMarker r.raster ⟨surface, resources⟩
      = (⟨marked, resources⟩, none) := by
    rw [Canvas.drawMarker, hmarked]
    rfl
  cases hask : r.settings.marker with
  | true =>
    refine ⟨⟨marked, resources⟩, bind_eq_ok_iff.mpr ⟨_, hblank, ?_⟩, hmarkedSized⟩
    rw [hask, if_pos rfl, hmarker]
    rfl
  | false =>
    refine ⟨⟨surface, resources⟩, bind_eq_ok_iff.mpr ⟨_, hblank, ?_⟩, hsized⟩
    rw [hask]
    rfl

end Runner

/-- **Surfaces keep their shape, and only captions fail.** A runner has a canvas to start on,
whatever has been rendered with its storage before. On the canvas after any number of steps of the
plan of any source, the surface has the sizes of the settings and just the bytes of its pixels, and
every directive that a line can spell is carried out with all checks and does not fail. A caption
that fails has a font size that is no positive number, or its face is registered without a family or
without the name of one; whatever the failure, it leaves the surface as it is, as does a caption
without a face and one that is too large. And a run has a result of that shape whenever it is told
to stop. All this holds with any shaping engine, and with any rasterizer whose layers have the bytes
of their pixels. -/
theorem shape_preserved (r : Runner) {resources : Resources}
    (hcache : Reachable r.storage resources.assets) (source : String) :
    ∃ start, r.start resources = .ok start ∧
      (∀ directive ∈ (Plan.parse source).directives, directive.Spelled) ∧
      (∀ k, let c := start.after r.toRenderer (Plan.parse source) k
        c.surface.Sized r.settings.sceneW.toNat r.settings.sceneH.toNat ∧
        (∀ directive : Directive, directive.Spelled →
          c.carryOut? r.toRenderer directive = some (c.apply r.toRenderer directive).1 ∧
            (c.apply r.toRenderer directive).2 = none) ∧
        ∀ caption : Caption,
          (∀ e, (c.paint r.toRenderer caption).2 = some e →
            (c.paint r.toRenderer caption).1.surface = c.surface ∧
            (e = .textSize ∨ e = .noFontFamilies ∨ e = .namelessFontFamily)) ∧
          (c.faceFor r.toRenderer caption = none →
            (c.paint r.toRenderer caption).1.surface = c.surface) ∧
          ∀ face, c.faceFor r.toRenderer caption = some face →
            Font.Oversized r.shaper face c.surface caption →
            (c.paint r.toRenderer caption).1.surface = c.surface) ∧
      ∀ poll, ∃ ending c, r.runSource poll resources source = .ok (ending, c) ∧
        c.surface.Sized r.settings.sceneW.toNat r.settings.sceneH.toNat := by
  obtain ⟨start, hstart, hsized⟩ := r.exists_start_eq_ok resources
  have hfits : start.Fits r.toRenderer :=
    ⟨hsized, Runner.resources_of_start_eq_ok hstart ▸ hcache.coherent⟩
  have hafter (k : Nat) : (start.after r.toRenderer (Plan.parse source) k).Fits r.toRenderer :=
    hfits.after r.valid (fun _ hdirective => (Plan.spelled_of_mem_parse hdirective).moderate) k
  refine ⟨start, hstart, fun _ => Plan.spelled_of_mem_parse, fun k => ⟨(hafter k).sized,
    fun directive hdirective => ?effect, fun caption => ⟨fun e he => ?failure,
    fun hface => ?faceless, fun face hface => Canvas.paint_of_oversized hface⟩⟩,
    fun poll => ?run⟩
  case effect =>
    have hsafe := (hafter k).apply r.valid hdirective.moderate
    exact ⟨hsafe.1, hsafe.2.1⟩
  case failure =>
    obtain ⟨hnone, -⟩ | ⟨e', face, he', hsurface, -, hlayout⟩ := Canvas.paint_cases r.toRenderer
      (start.after r.toRenderer (Plan.parse source) k) caption
    · rw [hnone] at he
      cases he
    · obtain rfl : e = e' := Option.some.inj (he.symm.trans he')
      exact ⟨hsurface, Font.Shaper.eq_of_layout_eq_error hlayout⟩
  case faceless =>
    obtain ⟨fonts, hpaint⟩ := Canvas.exists_paint_eq_of_none hface
    rw [hpaint]
  case run =>
    obtain ⟨k, hk⟩ : ∃ k, start.RunStopsAfter r.toRenderer poll (Plan.parse source) k :=
      Canvas.exists_stopsAfter ..
    rw [Runner.runSource_eq_ok hstart, Canvas.run_eq hk]
    exact ⟨_, _, rfl, (hafter k).sized⟩

/-- A small scene with a picture and a blur far beyond the largest deviation. -/
theorem shape_preserved_blur :
    let storage := Asset.Storage.ofTable [("gfx/bob.png", .image 1 1 .rgba #[255, 0, 0, 128])]
    let r : Runner := { settings := { sceneW := 3, sceneH := 2 }, storage, valid := rfl }
    let plan := Plan.parse "bob & BLUR pixels:999"
    plan.directives.length = 2 ∧ ∃ start, r.start {} = .ok start ∧
      (start.after r.toRenderer plan 1).surface.Sized 3 2 ∧
      ∀ directive ∈ plan.directives,
        ((start.after r.toRenderer plan 1).apply r.toRenderer directive).2 = none := by
  intro storage r plan
  obtain ⟨start, hstart, hspelled, hsteps, -⟩ :=
    @shape_preserved r {} .empty "bob & BLUR pixels:999"
  refine ⟨by decide +kernel, start, hstart, (hsteps 1).1, fun directive hdirective => ?_⟩
  exact ((hsteps 1).2.1 directive (hspelled directive hdirective)).2

end Render

end SceneCanvas
