import SceneCanvas.Pixel

/-!
# The arithmetic of pixels

Blending rounds every product of bytes on its own, so a law about pixels is first of all a law
about `mul255`: it is monotone in both factors, stays below both of them, and has `255` as its
unit. From these follow the two facts on which all compositing rests.

* **No carry** (`Pixel.plainOver_le`): what a premultiplied source and the attenuated destination
  add up to fits a byte in every channel, so the sum that is held at 255 is the plain sum.
* **Premultiplied pixels are closed** under laying over, adding and scaling
  (`Pixel.Premultiplied.sourceOver` and its neighbours).

Channels are treated alike by way of `Pixel.channel`, which reads a pixel as a function.
-/

namespace SceneCanvas

/-! ### Products and sums of bytes -/

theorem toNat_mul255 (x y : UInt8) :
    (mul255 x y).toNat = (x.toNat * y.toNat + 127) / 255 := by
  have hxy : x.toNat * y.toNat ≤ 255 * 255 :=
    Nat.mul_le_mul (Nat.le_of_lt_succ x.toNat_lt) (Nat.le_of_lt_succ y.toNat_lt)
  rw [mul255, UInt8.toNat_ofNat', Nat.mod_eq_of_lt (by omega)]

/-- Scaling never makes a byte larger. -/
theorem mul255_le_left (x y : UInt8) : mul255 x y ≤ x := by
  rw [UInt8.le_iff_toNat_le, toNat_mul255]
  have hxy : x.toNat * y.toNat ≤ x.toNat * 255 :=
    Nat.mul_le_mul_left _ (Nat.le_of_lt_succ y.toNat_lt)
  omega

theorem mul255_comm (x y : UInt8) : mul255 x y = mul255 y x := by
  rw [mul255, mul255, Nat.mul_comm]

theorem mul255_le_right (x y : UInt8) : mul255 x y ≤ y :=
  mul255_comm x y ▸ mul255_le_left y x

/-- Scaling by one factor keeps the order of bytes. -/
theorem mul255_le_mul255 {x x' : UInt8} (h : x ≤ x') (y : UInt8) : mul255 x y ≤ mul255 x' y := by
  rw [UInt8.le_iff_toNat_le] at h ⊢
  rw [toNat_mul255, toNat_mul255]
  have hxy : x.toNat * y.toNat ≤ x'.toNat * y.toNat := Nat.mul_le_mul_right _ h
  omega

@[simp] theorem mul255_full (x : UInt8) : mul255 x 255 = x := by
  rw [← UInt8.toNat_inj, toNat_mul255, show (255 : UInt8).toNat = 255 from rfl]
  omega

@[simp] theorem mul255_zero (x : UInt8) : mul255 x 0 = 0 := by
  rw [← UInt8.toNat_inj, toNat_mul255, show (0 : UInt8).toNat = 0 from rfl]
  omega

theorem toNat_saturatingAdd (x y : UInt8) :
    (saturatingAdd x y).toNat = min 255 (x.toNat + y.toNat) := by
  rw [saturatingAdd, UInt8.toNat_ofNat',
    Nat.mod_eq_of_lt (Nat.lt_of_le_of_lt (Nat.min_le_left _ _) (by decide))]

@[simp] theorem saturatingAdd_zero (x : UInt8) : saturatingAdd x 0 = x := by
  have hx := x.toNat_lt
  rw [← UInt8.toNat_inj, toNat_saturatingAdd, show (0 : UInt8).toNat = 0 from rfl]
  omega

/-- Adding keeps the order of bytes, held at 255 or not. -/
theorem saturatingAdd_le_saturatingAdd {x x' y y' : UInt8} (hx : x ≤ x') (hy : y ≤ y') :
    saturatingAdd x y ≤ saturatingAdd x' y' := by
  rw [UInt8.le_iff_toNat_le] at hx hy ⊢
  rw [toNat_saturatingAdd, toNat_saturatingAdd]
  omega

/-- What is left of 255. -/
theorem toNat_rest (x : UInt8) : (255 - x).toNat = 255 - x.toNat :=
  UInt8.toNat_sub_of_le _ _ (UInt8.le_iff_toNat_le.mpr (Nat.le_of_lt_succ x.toNat_lt))

namespace Pixel

/-! ### Channels -/

/-- The bytes of a pixel by name. -/
inductive Channel where
  | red
  | green
  | blue
  | alpha
deriving Repr, DecidableEq

/-- One byte of a pixel. -/
def channel (p : Pixel) : Channel → UInt8
  | .red => p.r
  | .green => p.g
  | .blue => p.b
  | .alpha => p.a

@[simp] theorem channel_alpha (p : Pixel) : p.channel .alpha = p.a := rfl

theorem ext_channel {p q : Pixel} (h : ∀ c, p.channel c = q.channel c) : p = q := by
  obtain ⟨r, g, b, a⟩ := p
  have hr := h .red
  have hg := h .green
  have hb := h .blue
  have ha := h .alpha
  simp only [channel] at hr hg hb ha
  rw [hr, hg, hb, ha]

@[simp] theorem channel_zipWith (f : UInt8 → UInt8 → UInt8) (p q : Pixel) (c : Channel) :
    (p.zipWith f q).channel c = f (p.channel c) (q.channel c) := by
  cases c <;> rfl

@[simp] theorem channel_map (f : UInt8 → UInt8) (p : Pixel) (c : Channel) :
    (p.map f).channel c = f (p.channel c) := by
  cases c <;> rfl

@[simp] theorem channel_transparent (c : Channel) : transparent.channel c = 0 := by
  cases c <;> rfl

/-- A pixel is premultiplied when no channel exceeds alpha, alpha itself included. -/
theorem premultiplied_iff {p : Pixel} : p.Premultiplied ↔ ∀ c, p.channel c ≤ p.a := by
  refine ⟨fun ⟨hr, hg, hb⟩ c => ?_, fun h => ⟨h .red, h .green, h .blue⟩⟩
  cases c with
  | red => exact hr
  | green => exact hg
  | blue => exact hb
  | alpha => exact UInt8.le_refl _

theorem premultiplied_transparent : transparent.Premultiplied :=
  premultiplied_iff.mpr fun c => by rw [channel_transparent]; exact UInt8.le_refl _

/-! ### Named colours are premultiplied -/

/-- The premultiplied form of any straight pixel is premultiplied. -/
theorem premultiplied_premultiply (p : Pixel) : p.premultiply.Premultiplied :=
  ⟨mul255_le_right _ _, mul255_le_right _ _, mul255_le_right _ _⟩

theorem premultiplied_ofHex (hex : UInt32) : (ofHex hex).Premultiplied :=
  have le_full (x : UInt8) : x ≤ 255 :=
    UInt8.le_iff_toNat_le.mpr (Nat.le_of_lt_succ x.toNat_lt)
  ⟨le_full _, le_full _, le_full _⟩

/-! ### Source-over as a plain sum -/

/-- One channel of `s`, scaled by `opacity`, over `d`, by the formula and nothing else: the scaled
source, and the part of the destination that it does not cover. There is no early exit, and the
sum is not held at 255. -/
def plainOver (opacity : UInt8) (s d : Pixel) (c : Channel) : Nat :=
  (mul255 (s.channel c) opacity).toNat + (mul255 (d.channel c) (255 - mul255 s.a opacity)).toNat

/-- **No carry.** The colours of a premultiplied source are within its coverage, and what shows
through of the destination is within the rest. -/
theorem plainOver_le {s : Pixel} (hs : s.Premultiplied) (opacity : UInt8) (d : Pixel)
    (c : Channel) : plainOver opacity s d c ≤ 255 := by
  have hsource : (mul255 (s.channel c) opacity).toNat ≤ (mul255 s.a opacity).toNat :=
    UInt8.le_iff_toNat_le.mp (mul255_le_mul255 (premultiplied_iff.mp hs c) opacity)
  have hrest : (mul255 (d.channel c) (255 - mul255 s.a opacity)).toNat
      ≤ 255 - (mul255 s.a opacity).toNat := by
    rw [← toNat_rest]
    exact UInt8.le_iff_toNat_le.mp (mul255_le_right _ _)
  have hcover := (mul255 s.a opacity).toNat_lt
  rw [plainOver]
  omega

/-- A source that scales to no coverage scales to no colour either, so the formula gives the
destination back. -/
theorem plainOver_of_cover_eq_zero {s : Pixel} (hs : s.Premultiplied) {opacity : UInt8}
    (h : mul255 s.a opacity = 0) (d : Pixel) (c : Channel) :
    plainOver opacity s d c = (d.channel c).toNat := by
  have hsource : mul255 (s.channel c) opacity ≤ 0 :=
    h ▸ mul255_le_mul255 (premultiplied_iff.mp hs c) opacity
  have hzero : (mul255 (s.channel c) opacity).toNat = 0 :=
    Nat.le_zero.mp (UInt8.le_iff_toNat_le.mp hsource)
  rw [plainOver, hzero, h, show (255 : UInt8) - 0 = 255 from rfl, mul255_full, Nat.zero_add]

/-- **Laying over is the plain formula** for a premultiplied source: neither the early exit nor
the bound on the sum ever shows. -/
theorem toNat_channel_sourceOver {s : Pixel} (hs : s.Premultiplied) (opacity : UInt8) (d : Pixel)
    (c : Channel) :
    ((sourceOver opacity s d).channel c).toNat = plainOver opacity s d c := by
  rw [sourceOver]
  split
  next h => exact (plainOver_of_cover_eq_zero hs h d c).symm
  next h =>
    rw [channel_zipWith, toNat_saturatingAdd]
    exact Nat.min_eq_right (plainOver_le hs opacity d c)

/-- At opacity zero nothing is laid over, whatever the source. -/
theorem sourceOver_zero (s d : Pixel) : sourceOver 0 s d = d := by
  rw [sourceOver, mul255_zero, if_pos rfl]

/-- A colour laid over at full opacity, unless it is transparent, is a source laid over at full
opacity. This holds of colours that are not premultiplied, too. -/
theorem sourceOver_full {s : Pixel} (hs : s.a ≠ 0) (d : Pixel) :
    sourceOver 255 s d = s.overFull d := by
  rw [sourceOver, mul255_full, if_neg hs, overFull]
  simp only [mul255_full]

/-! ### Operations that keep pixels premultiplied -/

/-- Laying over keeps a pixel premultiplied. A source with no alpha at all need not be
premultiplied: it is passed over. -/
theorem Premultiplied.sourceOver {s d : Pixel} (hd : d.Premultiplied)
    (hs : s.Premultiplied ∨ s.a = 0) (opacity : UInt8) :
    (Pixel.sourceOver opacity s d).Premultiplied := by
  rw [Pixel.sourceOver]
  split
  next => exact hd
  next h =>
    have hs : s.Premultiplied := by
      refine hs.resolve_right fun h0 => h ?_
      rw [h0, mul255_comm, mul255_zero]
    refine premultiplied_iff.mpr fun c => ?_
    rw [channel_zipWith, ← channel_alpha (zipWith _ _ _), channel_zipWith]
    exact saturatingAdd_le_saturatingAdd
      (mul255_le_mul255 (premultiplied_iff.mp hs c) _)
      (mul255_le_mul255 (premultiplied_iff.mp hd c) _)

/-- Scaling all four bytes keeps a pixel premultiplied. -/
theorem Premultiplied.scale {p : Pixel} (hp : p.Premultiplied) (m : UInt8) :
    (p.map (mul255 · m)).Premultiplied :=
  premultiplied_iff.mpr fun c => by
    rw [channel_map]
    exact mul255_le_mul255 (premultiplied_iff.mp hp c) m

/-- Adding a scaled premultiplied pixel keeps a pixel premultiplied, held at 255 or not. -/
theorem Premultiplied.add {s d : Pixel} (hd : d.Premultiplied) (hs : s.Premultiplied)
    (m : UInt8) : (d.zipWith (fun x y => saturatingAdd x (mul255 y m)) s).Premultiplied :=
  premultiplied_iff.mpr fun c => by
    rw [channel_zipWith]
    exact saturatingAdd_le_saturatingAdd (premultiplied_iff.mp hd c)
      (mul255_le_mul255 (premultiplied_iff.mp hs c) m)

end Pixel

end SceneCanvas
