import SceneCanvas.Proofs.Cache
import SceneCanvas.Proofs.Buffer
import Mathlib.Algebra.Order.Field.Rat
import Mathlib.Tactic.FieldSimp
import Mathlib.Tactic.Linarith
import Mathlib.Tactic.Positivity

/-!
# Straight and premultiplied pixels

Surfaces are premultiplied and image files are straight, so a frame that is written to a file and
drawn again goes through both conversions. Each of them rounds. For a premultiplied pixel the two
roundings undo each other, whatever its alpha (`Pixel.premultiply_unpremultiply`): unscaling is off
by at most half of alpha over 255, and that is less than what scaling rounds away. For a straight
pixel they need not, since premultiplying forgets colour: the less alpha there is, the more
(`Pixel.unpremultiply_premultiply_near`).

`Surface.export_import_lossless` puts this together for frames in files.
-/

namespace SceneCanvas

namespace Pixel

/-! ### Scaling and unscaling a byte -/

theorem toNat_unscale (a c : UInt8) :
    (unscale a c).toNat = min 255 ((c.toNat * 255 + a.toNat / 2) / a.toNat) := by
  rw [unscale, UInt8.toNat_ofNat',
    Nat.mod_eq_of_lt (Nat.lt_of_le_of_lt (Nat.min_le_left _ _) (by decide))]

/-- Unscaling a colour within its alpha rounds to the nearest quotient, which is a byte. -/
theorem unscale_bounds {a c : UInt8} (ha : 0 < a.toNat) (hc : c ≤ a) :
    (unscale a c).toNat * a.toNat ≤ c.toNat * 255 + a.toNat / 2 ∧
      c.toNat * 255 + a.toNat / 2 < (unscale a c).toNat * a.toNat + a.toNat := by
  have hca : c.toNat ≤ a.toNat := UInt8.le_iff_toNat_le.mp hc
  -- the quotient does not exceed 255, since the colour does not exceed alpha
  have hbyte : (c.toNat * 255 + a.toNat / 2) / a.toNat ≤ 255 := by
    refine Nat.le_of_lt_succ (Nat.div_lt_of_lt_mul ?_)
    omega
  have hfloor := Nat.div_mul_le_self (c.toNat * 255 + a.toNat / 2) a.toNat
  have hceil := Nat.lt_div_mul_add ha (a := c.toNat * 255 + a.toNat / 2)
  rw [toNat_unscale, Nat.min_eq_right hbyte]
  exact ⟨hfloor, hceil⟩

/-- **Scaling undoes unscaling** of a colour within its alpha. -/
theorem mul255_unscale {a c : UInt8} (ha : 0 < a.toNat) (hc : c ≤ a) (hsolid : a ≠ 255) :
    mul255 (unscale a c) a = c := by
  have halpha : a.toNat < 255 := by
    have hne : a.toNat ≠ 255 := fun h => hsolid (UInt8.toNat_inj.mp h)
    have hlt := a.toNat_lt
    omega
  obtain ⟨hfloor, hceil⟩ := unscale_bounds ha hc
  -- half of alpha is at most 127, so the product stays within the bytes that round to `c`
  rw [← UInt8.toNat_inj, toNat_mul255]
  generalize (unscale a c).toNat * a.toNat = product at hfloor hceil ⊢
  omega

/-- A bound on a difference of naturals that has been multiplied out. -/
private theorem abs_sub_lt_of_mul_le {u c a : Nat} (ha : 0 < a)
    (hu : 2 * (u * a) ≤ 2 * (c * a) + a + 254) (hc : 2 * (c * a) ≤ 2 * (u * a) + a + 254) :
    |(u : ℚ) - c| < 1 / 2 + 255 / (2 * a) := by
  have hapos : (0 : ℚ) < a := Nat.cast_pos.mpr ha
  have hu' : 2 * ((u : ℚ) * a) ≤ 2 * (c * a) + a + 254 := by exact_mod_cast hu
  have hc' : 2 * ((c : ℚ) * a) ≤ 2 * (u * a) + a + 254 := by exact_mod_cast hc
  have hbound : (1 : ℚ) / 2 + 255 / (2 * a) = (a + 255) / (2 * a) := by
    field_simp
  rw [hbound, lt_div_iff₀ (by positivity), ← abs_of_pos (show (0 : ℚ) < 2 * a by positivity),
    ← abs_mul, abs_lt]
  constructor <;> linarith

/-- Unscaling a scaled colour misses it by less than the step between scaled colours. -/
theorem unscale_mul255_near {a : UInt8} (ha : 0 < a.toNat) (c : UInt8) :
    |((unscale a (mul255 c a)).toNat : ℚ) - c.toNat| < 1 / 2 + 255 / (2 * a.toNat) := by
  obtain ⟨hfloor, hceil⟩ := unscale_bounds ha (mul255_le_right c a)
  rw [toNat_mul255] at hfloor hceil
  refine abs_sub_lt_of_mul_le ha ?_ ?_ <;>
    (generalize (unscale a (mul255 c a)).toNat * a.toNat = product at hfloor hceil ⊢
     generalize c.toNat * a.toNat = exact at hfloor hceil ⊢
     omega)

/-! ### Converting a pixel to and fro -/

@[simp] theorem channel_mapColor {c : Channel} (hc : c ≠ .alpha) (f : UInt8 → UInt8) (p : Pixel) :
    (p.mapColor f).channel c = f (p.channel c) := by
  cases c with
  | alpha => exact absurd rfl hc
  | red | green | blue => rfl

@[simp] theorem alpha_premultiply (p : Pixel) : p.premultiply.a = p.a := rfl

@[simp] theorem alpha_unpremultiply (p : Pixel) : p.unpremultiply.a = p.a := by
  rw [unpremultiply]
  split
  next h => exact h.symm
  next => split <;> rfl

/-- A solid pixel is straight and premultiplied at once. -/
theorem premultiply_of_solid {p : Pixel} (h : p.a = 255) : p.premultiply = p := by
  rw [premultiply, mapColor, h]
  simp only [mul255_full]
  rw [← h]

theorem unpremultiply_of_solid {p : Pixel} (h : p.a = 255) : p.unpremultiply = p := by
  rw [unpremultiply, if_neg (by rw [h]; decide), if_pos h]

/-- A premultiplied pixel without alpha is transparent. -/
theorem Premultiplied.eq_transparent {p : Pixel} (hp : p.Premultiplied) (h : p.a = 0) :
    p = transparent := by
  refine ext_channel fun c => ?_
  have hc : p.channel c ≤ 0 := h ▸ premultiplied_iff.mp hp c
  rw [channel_transparent]
  exact UInt8.le_antisymm hc UInt8.zero_le

/-- **Premultiplying undoes unpremultiplying.** -/
theorem premultiply_unpremultiply {p : Pixel} (hp : p.Premultiplied) :
    p.unpremultiply.premultiply = p := by
  by_cases hzero : p.a = 0
  · rw [hp.eq_transparent hzero]
    rfl
  by_cases hsolid : p.a = 255
  · rw [unpremultiply_of_solid hsolid, premultiply_of_solid hsolid]
  have ha : 0 < p.a.toNat := Nat.pos_of_ne_zero fun h => hzero (UInt8.toNat_inj.mp h)
  have hcolor (c : Channel) : mul255 (unscale p.a (p.channel c)) p.a = p.channel c :=
    mul255_unscale ha (premultiplied_iff.mp hp c) hsolid
  refine ext_channel fun c => ?_
  rw [unpremultiply, if_neg hzero, if_neg hsolid]
  cases c with
  | red => exact hcolor .red
  | green => exact hcolor .green
  | blue => exact hcolor .blue
  | alpha => rfl

/-- **Unpremultiplying nearly undoes premultiplying**: no channel is off by as much as half a byte
and half a step between premultiplied colours. -/
theorem unpremultiply_premultiply_near {p : Pixel} (hp : p.a ≠ 0) (c : Channel) :
    |((p.premultiply.unpremultiply.channel c).toNat : ℚ) - (p.channel c).toNat|
      < 1 / 2 + 255 / (2 * p.a.toNat) := by
  have ha : 0 < p.a.toNat := Nat.pos_of_ne_zero fun h => hp (UInt8.toNat_inj.mp h)
  have hsame : |((p.channel c).toNat : ℚ) - (p.channel c).toNat|
      < 1 / 2 + 255 / (2 * p.a.toNat) := by
    rw [sub_self, abs_zero]
    positivity
  by_cases hsolid : p.a = 255
  · rw [premultiply_of_solid hsolid, unpremultiply_of_solid hsolid]
    exact hsame
  have hcolor := unscale_mul255_near ha (p.channel c)
  rw [unpremultiply, if_neg (by simpa using hp), if_neg (by simpa using hsolid)]
  cases c with
  | red | green | blue => exact hcolor
  | alpha => exact hsame

end Pixel

/-! ### Converting a buffer to and fro -/

namespace Buffer

/-- Bytes behind the run stay as they are. -/
theorem byteAt_updateSpan_of_le (b : Buffer) (n : Nat) (f : Nat → Pixel → Pixel) {i : Nat}
    (hi : 4 * n ≤ i) : (b.updateSpan 0 n f).byteAt i = b.byteAt i := by
  induction n with
  | zero => rfl
  | succ n ih =>
    rw [updateSpan_succ, setPixel]
    simp only [byteAt_setIfInBounds]
    rw [if_neg (by omega), if_neg (by omega), if_neg (by omega), if_neg (by omega), ih (by omega)]

/-- Mapping the complete pixels and mapping them back gives the buffer back, bytes of an incomplete
pixel included. -/
theorem mapPixels_mapPixels_eq_self {b : Buffer} {f g : Pixel → Pixel}
    (h : ∀ p < b.pixelCount, g (f (b.pixelAt p)) = b.pixelAt p) :
    (b.mapPixels f).mapPixels g = b := by
  have hcount : (b.mapPixels f).pixelCount = b.pixelCount := pixelCount_congr (size_mapPixels b f)
  have hpixel {p : Nat} (hp : p < b.pixelCount) :
      ((b.mapPixels f).mapPixels g).pixelAt p = b.pixelAt p := by
    rw [pixelAt_mapPixels _ _ (hcount ▸ hp), pixelAt_mapPixels _ _ hp, h p hp]
  have hbehind {i : Nat} (hi : 4 * b.pixelCount ≤ i) :
      ((b.mapPixels f).mapPixels g).byteAt i = b.byteAt i := by
    rw [mapPixels_eq_updateSpan _ g, byteAt_updateSpan_of_le _ _ _ (hcount ▸ hi),
      mapPixels_eq_updateSpan _ f, byteAt_updateSpan_of_le _ _ _ hi]
  refine ext_byteAt (by simp) fun i _ => ?_
  by_cases hi : i < 4 * b.pixelCount
  · exact byteAt_eq_of_pixelAt_eq (hpixel (Nat.div_lt_of_lt_mul hi))
  · exact hbehind (Nat.le_of_not_lt hi)

/-- Premultiplying the straight form of a premultiplied buffer gives the buffer back. -/
theorem premultiply_unpremultiply {b : Buffer} (hb : b.Premultiplied) :
    b.unpremultiply.premultiply = b :=
  mapPixels_mapPixels_eq_self fun p hp => Pixel.premultiply_unpremultiply (hb p hp)

end Buffer

/-! ### Frames in files -/

namespace Asset

/-- A file is an image of `w` by `h` straight pixels, in samples of whatever kind. -/
def File.Holds (file : File) (w h : Nat) (straight : Buffer) : Prop :=
  ∃ channels samples, file = .image w h channels samples ∧
    ∀ p < w * h, channels.pixelAt samples (p * channels.count) = straight.pixelAt p

/-- Decoding premultiplies what the file holds. -/
theorem File.Holds.decode_eq_ok {file : File} {w h : Nat} {straight : Buffer}
    (hfile : file.Holds w h straight) (hsize : straight.size = 4 * (w * h)) :
    file.decode = .ok ⟨w, h, straight.premultiply⟩ := by
  obtain ⟨channels, samples, rfl, hpixels⟩ := hfile
  rw [File.decode]
  refine congrArg (fun data => Except.ok (Picture.mk w h data)) ?_
  have hcount : straight.pixelCount = w * h := by
    rw [Buffer.pixelCount, hsize]
    omega
  refine Buffer.ext_pixelAt (by simp [Buffer.premultiply, hsize]) (by simp) fun p hp => ?_
  rw [Buffer.pixelCount_ofPixels] at hp
  rw [Buffer.pixelAt_ofPixels _ _ hp, hpixels p hp, Buffer.premultiply,
    Buffer.pixelAt_mapPixels _ _ (hcount ▸ hp)]

/-- A codec of image files writes what it reads back: of every image with pixels, the file holds
the pixels that were given. -/
def Lossless (save : Nat → Nat → Buffer → File) : Prop :=
  ∀ w h straight, 0 < w → 0 < h → straight.size = 4 * (w * h) →
    (save w h straight).Holds w h straight

end Asset

namespace Surface

open Asset (Cache Storage Lossless)

theorem toStraight_eq_ok {s : Surface} (h : 4 * (s.width * s.height) ≤ s.data.size) :
    s.toStraight = .ok s.data.unpremultiply := by
  rw [toStraight, if_neg (Nat.not_lt.mpr h)]

/-- **Export and import lose nothing.** The straight copy of a premultiplied surface, premultiplied
again, is the surface, byte for byte. So a frame that a lossless codec has saved is decoded, and
loaded from a storage, as it was. In the other direction, a straight pixel that has any alpha keeps
its alpha and is off by less than `1 / 2 + 255 / (2 * alpha)` in each channel; if it is solid, it
is not changed. -/
theorem export_import_lossless :
    (∀ s : Surface, s.data.Premultiplied →
      s.data.unpremultiply.premultiply = s.data ∧
      (4 * (s.width * s.height) ≤ s.data.size → s.toStraight = .ok s.data.unpremultiply) ∧
      ∀ save, Lossless save → s.Shaped → 0 < s.width → 0 < s.height →
        ∃ straight, s.toStraight = .ok straight ∧
          (save s.width s.height straight).decode = .ok ⟨s.width, s.height, s.data⟩ ∧
          ∀ (storage : Storage) (path : String) (c : Cache), c.Coherent storage →
            storage.read path = .ok (save s.width s.height straight) →
            (c.load storage path).1 = some ⟨s.width, s.height, s.data⟩) ∧
    ∀ p : Pixel, p.a ≠ 0 →
      p.premultiply.unpremultiply.a = p.a ∧
      (∀ c, |((p.premultiply.unpremultiply.channel c).toNat : ℚ) - (p.channel c).toNat|
        < 1 / 2 + 255 / (2 * p.a.toNat)) ∧
      (p.a = 255 → p.premultiply.unpremultiply = p) := by
  refine ⟨fun s hs => ?frame, fun p hp => ?pixel⟩
  case frame =>
    have hback := Buffer.premultiply_unpremultiply hs
    refine ⟨hback, toStraight_eq_ok, fun save hsave hshape hw hh => ?_⟩
    have hsize : s.data.unpremultiply.size = 4 * (s.width * s.height) := by
      rw [Buffer.unpremultiply, Buffer.size_mapPixels]
      exact hshape
    have hdecode : (save s.width s.height s.data.unpremultiply).decode
        = .ok ⟨s.width, s.height, s.data⟩ := by
      rw [(hsave _ _ _ hw hh hsize).decode_eq_ok hsize, hback]
    refine ⟨_, toStraight_eq_ok (Nat.le_of_eq hshape.symm), hdecode,
      fun storage path c hc hread => ?_⟩
    rw [(Cache.load_spec hc path).1, Storage.picture?, hread]
    exact congrArg Except.toOption hdecode
  case pixel =>
    refine ⟨?_, Pixel.unpremultiply_premultiply_near hp, fun hsolid => ?_⟩
    · rw [Pixel.alpha_unpremultiply, Pixel.alpha_premultiply]
    · rw [Pixel.premultiply_of_solid hsolid, Pixel.unpremultiply_of_solid hsolid]

/-- A translucent pixel saved as it stands and loaded again, and a straight pixel with little
alpha, whose channels may be off by more than fifteen. -/
theorem export_import_lossless_pixel :
    let save := fun w h straight => Asset.File.image w h .rgba straight
    let s : Surface := ⟨1, 1, #[64, 32, 0, 128]⟩
    (Lossless save ∧ s.data.Premultiplied ∧ s.Shaped) ∧
    s.data.unpremultiply.premultiply = s.data ∧
    (∃ straight, s.toStraight = .ok straight ∧
      (save 1 1 straight).decode = .ok ⟨1, 1, #[64, 32, 0, 128]⟩) ∧
    |((Pixel.unpremultiply (Pixel.premultiply ⟨100, 0, 0, 8⟩)).r.toNat : ℚ) - 100|
      < 1 / 2 + 255 / (2 * 8) := by
  intro save s
  have hsave : Lossless save := fun w h straight _ _ _ =>
    ⟨.rgba, straight, rfl, fun p _ => by rw [Nat.mul_comm]; rfl⟩
  have hs : s.data.Premultiplied := by decide
  obtain ⟨hback, -, hfile⟩ := export_import_lossless.1 s hs
  obtain ⟨straight, hstraight, hdecode, -⟩ := hfile save hsave rfl Nat.one_pos Nat.one_pos
  have hpixel := (export_import_lossless.2 ⟨100, 0, 0, 8⟩ (by decide)).2.1 .red
  exact ⟨⟨hsave, hs, rfl⟩, hback, ⟨straight, hstraight, hdecode⟩, hpixel⟩

end Surface

end SceneCanvas
