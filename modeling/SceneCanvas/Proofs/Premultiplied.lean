import SceneCanvas.Asset.File
import SceneCanvas.Blur.Gaussian
import SceneCanvas.Surface
import SceneCanvas.Proofs.Blend
import SceneCanvas.Proofs.Convolution

/-!
# Surfaces stay premultiplied

Everything that is drawn is premultiplied, and every operation on pixels relies on it. Here it is
an invariant of whole runs: `Surface.Run` chains any operations on a surface, and
`Surface.premultiplied_run` says that premultiplied sources and named colours keep the surface
premultiplied all along, and that no sum of the operations that lay over is ever held at 255.

* One lemma an operation, on buffers: `Buffer.Premultiplied.sourceOver` and its neighbours.
* `Surface.Operation.premultiplied_apply` puts them together, one case an operation.
-/

namespace SceneCanvas

/-! ### Where premultiplied pixels come from -/

/-- The colours that a scene can name. -/
inductive Pixel.Named : Pixel → Prop where
  | straight (r g b a : UInt8) : Named (ofStraight r g b a)
  | fraction (r g b : UInt8) (alpha : Float32) : Named (withAlpha r g b alpha)
  | hex (number : UInt32) : Named (ofHex number)

theorem Pixel.Named.premultiplied {color : Pixel} (h : color.Named) : color.Premultiplied := by
  cases h with
  | straight r g b a => exact premultiplied_premultiply _
  | fraction r g b alpha => exact premultiplied_premultiply _
  | hex number => exact premultiplied_ofHex number

namespace Buffer

theorem premultiplied_ofPixels {n : Nat} {f : Nat → Pixel} (h : ∀ p < n, (f p).Premultiplied) :
    (ofPixels n f).Premultiplied := by
  intro p hp
  rw [pixelCount_ofPixels] at hp
  rw [pixelAt_ofPixels n f hp]
  exact h p hp

theorem premultiplied_zeros (n : Nat) : (zeros n).Premultiplied := fun p _ =>
  pixelAt_zeros n p ▸ Pixel.premultiplied_transparent

/-- Premultiplying makes any buffer premultiplied. -/
theorem premultiplied_premultiply (b : Buffer) : b.premultiply.Premultiplied := by
  intro p hp
  rw [premultiply] at hp ⊢
  rw [pixelCount_congr (size_mapPixels ..)] at hp
  rw [pixelAt_mapPixels _ _ hp]
  exact Pixel.premultiplied_premultiply _

end Buffer

/-- Decoded pictures are premultiplied. -/
theorem Asset.File.premultiplied_of_decode_eq_ok {file : Asset.File} {picture : Picture}
    (h : file.decode = .ok picture) : picture.data.Premultiplied := by
  cases file with
  | image width height channels samples =>
    cases h
    exact Buffer.premultiplied_ofPixels fun p _ => Pixel.premultiplied_premultiply _
  | font face => cases h
  | bytes content => cases h

/-! ### Operations on buffers -/

namespace Buffer.Premultiplied

variable {dst src : Buffer}

/-- A source pixel that is not complete has no alpha. -/
theorem pixelAt_or (hsrc : src.Premultiplied) (p : Nat) :
    (src.pixelAt p).Premultiplied ∨ (src.pixelAt p).a = 0 := by
  by_cases hp : p < src.pixelCount
  · exact .inl (hsrc p hp)
  · exact .inr (alpha_pixelAt_eq_zero (Nat.le_of_not_lt hp))

theorem updateSpan (hdst : dst.Premultiplied) (d n : Nat) {f : Nat → Pixel → Pixel}
    (hf : ∀ i q, q.Premultiplied → (f i q).Premultiplied) :
    (dst.updateSpan d n f).Premultiplied := by
  intro p hp
  rw [pixelCount_updateSpan] at hp
  rw [pixelAt_updateSpan _ _ _ _ hp]
  split
  next => exact hf _ _ (hdst p hp)
  next => exact hdst p hp

theorem overSpan (hdst : dst.Premultiplied) (hsrc : src.Premultiplied) (d s n : Nat)
    (opacity : UInt8) : (dst.overSpan d src s n opacity).Premultiplied := by
  rw [overSpan_eq_updateSpan]
  split
  next => exact hdst
  next => exact hdst.updateSpan d n fun i q hq => hq.sourceOver (hsrc.pixelAt_or _) opacity

theorem sourceOver (hdst : dst.Premultiplied) (hsrc : src.Premultiplied) {opacity : Float32}
    {out : Buffer} (h : dst.sourceOver src opacity = .ok out) : out.Premultiplied := by
  rw [← (sourceOver_eq_ok_iff.mp h).2]
  exact hdst.overSpan hsrc _ _ _ _

theorem add (hdst : dst.Premultiplied) (hsrc : src.Premultiplied) {opacity : Float32}
    {out : Buffer} (h : dst.add src opacity = .ok out) : out.Premultiplied := by
  obtain ⟨⟨hsize, -⟩, -⟩ := add_eq_ok_iff.mp h
  intro p hp
  rw [pixelCount_congr (size_of_add_eq_ok h)] at hp
  have hps : p < src.pixelCount := pixelCount_congr hsize ▸ hp
  rw [pixelAt_of_add_eq_ok h hp]
  exact (hdst p hp).add (hsrc p hps) _

theorem fillOver (hdst : dst.Premultiplied) {color : Pixel} (hcolor : color.Premultiplied) :
    (dst.fillOver color).Premultiplied := by
  intro p hp
  rw [pixelCount_congr (size_fillOver ..)] at hp
  rw [pixelAt_fillOver _ _ hp]
  exact (hdst p hp).sourceOver (.inl hcolor) 255

/-- The sizes and the place of the source do not matter. -/
theorem overAt (hdst : dst.Premultiplied) (hsrc : src.Premultiplied) (dw dh sw sh : Nat)
    (x y : Int) : (dst.overAt dw dh src sw sh x y).Premultiplied := by
  rw [overAt_eq_foldl]
  exact List.foldlRecOn _ _ hdst fun acc hacc span _ => hacc.overSpan hsrc _ _ _ _

theorem maskWith {layer : Buffer} (hlayer : layer.Premultiplied) (mask : Buffer) :
    (layer.maskWith mask).Premultiplied := by
  rw [maskWith_eq_updateSpan]
  exact hlayer.updateSpan _ _ fun i q hq => hq.scale _

/-- Every pixel of a grown picture is one of the picture. -/
theorem padEdges (hsrc : src.Premultiplied) {w h : Nat} (pad : Nat)
    (hpicture : pad = 0 ∨ 0 < w ∧ 0 < h) (hsize : 4 * (w * h) ≤ src.size) :
    (src.padEdges w h pad).Premultiplied := by
  refine premultiplied_ofPixels fun p hp => hsrc _ ?_
  -- without a border there is a pixel to ask for only if the picture has one
  have hpos : 0 < w ∧ 0 < h := by
    refine hpicture.elim (fun hpad => ?_) id
    subst hpad
    exact ⟨Nat.pos_of_mul_pos_right (Nat.zero_lt_of_lt hp),
      Nat.pos_of_mul_pos_left (Nat.zero_lt_of_lt hp)⟩
  have hcolumn : clampIndex w pad (p % (w + 2 * pad)) < w :=
    Nat.lt_of_le_of_lt (Nat.min_le_right _ _) (Nat.sub_lt hpos.1 Nat.one_pos)
  have hrow : clampIndex h pad (p / (w + 2 * pad)) < h :=
    Nat.lt_of_le_of_lt (Nat.min_le_right _ _) (Nat.sub_lt hpos.2 Nat.one_pos)
  exact place_lt_pixelCount hsize hcolumn hrow

theorem crop (hsrc : src.Premultiplied) {sw pad w h : Nat}
    (hrows : ∀ y < h, 4 * ((y + pad) * sw + pad + w) ≤ src.size) :
    (src.crop sw pad w h).Premultiplied := by
  refine premultiplied_ofPixels fun p hp => hsrc _ ?_
  have hwidth : 0 < w := Nat.pos_of_mul_pos_right (Nat.zero_lt_of_lt hp)
  have hcolumn : p % w < w := Nat.mod_lt p hwidth
  have hrow := hrows (p / w) (Nat.div_lt_of_lt_mul hp)
  rw [pixelCount]
  omega

theorem exactBlur (hsrc : src.Premultiplied) {w h radius : Nat} {sigma : Float32} {out : Buffer}
    (hblur : src.exactBlur w h radius sigma = .ok out) : out.Premultiplied := by
  rw [Buffer.exactBlur] at hblur
  split at hblur
  next => cases hblur
  next =>
    split at hblur
    next => cases hblur
    next hsize =>
      split at hblur
      next => cases hblur; exact hsrc
      next =>
        cases hkernel : Kernel.gaussian radius sigma with
        | error e => rw [hkernel] at hblur; cases hblur
        | ok k =>
          rw [hkernel] at hblur
          cases hblur
          exact hsrc.convolve (Decidable.not_not.mp hsize) k

end Buffer.Premultiplied

/-! ### Runs of operations -/

namespace Surface

/-- What can be done to a surface. The operations that build a new buffer give it the sizes that
they are told. -/
inductive Operation where
  | clear
  | layOver (src : Buffer) (opacity : Float32)
  | add (src : Buffer) (opacity : Float32)
  | overAt (dw dh : Nat) (src : Buffer) (sw sh : Nat) (x y : Int)
  | fill (color : Pixel)
  | grow (w h pad : Nat)
  | crop (sw pad w h : Nat)
  | blur (w h radius : Nat) (sigma : Float32)
  | scale (mask : Buffer)

namespace Operation

/-- What an operation makes of a surface, unless it refuses to work on it. -/
def apply (op : Operation) (s : Surface) : Except SceneError Surface :=
  match op with
  | clear => .ok s.clear
  | layOver src opacity => return { s with data := ← s.data.sourceOver src opacity }
  | add src opacity => return { s with data := ← s.data.add src opacity }
  | overAt dw dh src sw sh x y => .ok (s.mapData (·.overAt dw dh src sw sh x y))
  | fill color => .ok (s.mapData (·.fillOver color))
  | grow w h pad => .ok ⟨w + 2 * pad, h + 2 * pad, s.data.padEdges w h pad⟩
  | crop sw pad w h => .ok ⟨w, h, s.data.crop sw pad w h⟩
  | blur w h radius sigma => return ⟨w, h, ← s.data.exactBlur w h radius sigma⟩
  | scale mask => .ok (s.mapData (·.maskWith mask))

/-- The buffers that an operation draws from are premultiplied, and its colour is a named one. -/
def Sourced : Operation → Prop
  | layOver src _ | add src _ | overAt _ _ src .. => src.Premultiplied
  | fill color => color.Named
  | _ => True

/-- The rows that an operation takes from a surface lie within it. Rows taken from beyond the end
have no pixels to give. -/
def InRange (op : Operation) (s : Surface) : Prop :=
  match op with
  | grow w h pad => (pad = 0 ∨ 0 < w ∧ 0 < h) ∧ 4 * (w * h) ≤ s.data.size
  | crop sw pad w h => ∀ y < h, 4 * ((y + pad) * sw + pad + w) ≤ s.data.size
  | _ => True

instance : (op : Operation) → (s : Surface) → Decidable (op.InRange s)
  | grow w h pad, s =>
    inferInstanceAs (Decidable ((pad = 0 ∨ 0 < w ∧ 0 < h) ∧ 4 * (w * h) ≤ s.data.size))
  | crop sw pad w h, s =>
    inferInstanceAs (Decidable (∀ y < h, 4 * ((y + pad) * sw + pad + w) ≤ s.data.size))
  | clear, _ | layOver .., _ | add .., _ | overAt .., _ | fill .., _ | blur .., _ | scale .., _ =>
    inferInstanceAs (Decidable True)

/-- The plain sums of an operation that lays over fit a byte in all four channels, whatever pixels
they meet in the destination, so that holding them at 255 changes nothing. -/
def NoCarry : Operation → Prop
  | layOver src opacity => ∀ p < src.pixelCount, ∀ d c,
      Pixel.plainOver (Pixel.fractionByte opacity) (src.pixelAt p) d c ≤ 255
  | overAt _ _ src .. => ∀ p < src.pixelCount, ∀ d c, Pixel.plainOver 255 (src.pixelAt p) d c ≤ 255
  | fill color => ∀ d c, Pixel.plainOver 255 color d c ≤ 255
  | _ => True

/-- One operation keeps a surface premultiplied. -/
theorem premultiplied_apply {op : Operation} {s t : Surface} (hs : s.data.Premultiplied)
    (hop : op.Sourced) (hin : op.InRange s) (h : op.apply s = .ok t) : t.data.Premultiplied := by
  cases op with
  | clear => cases h; exact Buffer.premultiplied_zeros _
  | layOver src opacity =>
    rw [apply, bind_eq_ok_iff] at h
    obtain ⟨out, hout, ht⟩ := h
    cases ht
    exact hs.sourceOver hop hout
  | add src opacity =>
    rw [apply, bind_eq_ok_iff] at h
    obtain ⟨out, hout, ht⟩ := h
    cases ht
    exact hs.add hop hout
  | overAt dw dh src sw sh x y => cases h; exact hs.overAt hop _ _ _ _ _ _
  | fill color => cases h; exact hs.fillOver hop.premultiplied
  | grow w h pad => cases h; exact hs.padEdges pad hin.1 hin.2
  | crop sw pad w h => cases h; exact hs.crop hin
  | blur w h radius sigma =>
    rw [apply, bind_eq_ok_iff] at h
    obtain ⟨out, hout, ht⟩ := h
    cases ht
    exact hs.exactBlur hout
  | scale mask => cases h; exact hs.maskWith mask

theorem noCarry {op : Operation} (hop : op.Sourced) : op.NoCarry := by
  cases op with
  | layOver src opacity => exact fun p hp d c => Pixel.plainOver_le (hop p hp) _ d c
  | overAt dw dh src sw sh x y => exact fun p hp d c => Pixel.plainOver_le (hop p hp) _ d c
  | fill color => exact fun d c => Pixel.plainOver_le hop.premultiplied _ d c
  | clear | add | grow | crop | blur | scale => trivial

end Operation

/-- Operations in a row, from one surface to another. An operation that refuses a surface leaves
it as it is. -/
inductive Run : Surface → List Operation → Surface → Prop where
  | nil (s : Surface) : Run s [] s
  | done {s t u : Surface} {op : Operation} {ops : List Operation} (hin : op.InRange s)
      (h : op.apply s = .ok t) (hrest : Run t ops u) : Run s (op :: ops) u
  | refused {s u : Surface} {op : Operation} {ops : List Operation} {e : SceneError}
      (h : op.apply s = .error e) (hrest : Run s ops u) : Run s (op :: ops) u

/-- Every run from a premultiplied surface ends in one, and on the way nothing carries. -/
theorem Run.premultiplied {s t : Surface} {ops : List Operation} (hrun : Run s ops t)
    (hs : s.data.Premultiplied) (hops : ∀ op ∈ ops, op.Sourced) : t.data.Premultiplied := by
  induction hrun with
  | nil s => exact hs
  | done hin h _ ih =>
    have hop := hops _ List.mem_cons_self
    exact ih (Operation.premultiplied_apply hs hop hin h)
      fun op' hop' => hops op' (List.mem_cons_of_mem _ hop')
  | refused h _ ih => exact ih hs fun op' hop' => hops op' (List.mem_cons_of_mem _ hop')

/-- **Surfaces stay premultiplied.** Decoded pictures are premultiplied, as is everything that has
been through `Buffer.premultiply`. From a premultiplied surface, any operations in any order that
draw from premultiplied buffers and use named colours lead to a premultiplied surface, and no sum
of an operation that lays over needs to be held at 255. -/
theorem premultiplied_run :
    (∀ b : Buffer, b.premultiply.Premultiplied) ∧
    (∀ (file : Asset.File) (picture : Picture), file.decode = .ok picture →
      picture.data.Premultiplied) ∧
    ∀ (s t : Surface) (ops : List Operation), s.data.Premultiplied → (∀ op ∈ ops, op.Sourced) →
      Run s ops t → t.data.Premultiplied ∧ ∀ op ∈ ops, op.NoCarry := by
  refine ⟨Buffer.premultiplied_premultiply, fun _ _ => Asset.File.premultiplied_of_decode_eq_ok,
    fun s t ops hs hops hrun => ⟨hrun.premultiplied hs hops, fun op hop => ?_⟩⟩
  exact Operation.noCarry (hops op hop)

/-- A colour, a translucent picture and a refused buffer, and then a border put on and cut off. -/
theorem premultiplied_run_pixel :
    Buffer.Premultiplied #[72, 16, 24, 255] ∧
      (Operation.overAt 1 1 #[64, 0, 0, 128] 1 1 0 0).NoCarry := by
  have hsourced : ∀ op ∈ [Operation.fill (Pixel.ofHex 0x102030),
      .overAt 1 1 #[64, 0, 0, 128] 1 1 0 0, .layOver #[] 1.0, .grow 1 1 1, .crop 3 1 1 1],
      op.Sourced := by
    simp only [List.mem_cons, List.not_mem_nil, or_false]
    rintro op (rfl | rfl | rfl | rfl | rfl)
    · exact .hex 0x102030
    · exact (by decide : Buffer.Premultiplied #[64, 0, 0, 128])
    · exact (by decide : Buffer.Premultiplied #[])
    · trivial
    · trivial
  have hrun : Run ⟨1, 1, #[0, 0, 0, 0]⟩ [Operation.fill (Pixel.ofHex 0x102030),
      .overAt 1 1 #[64, 0, 0, 128] 1 1 0 0, .layOver #[] 1.0, .grow 1 1 1, .crop 3 1 1 1]
      ⟨1, 1, #[72, 16, 24, 255]⟩ :=
    .done trivial rfl <| .done trivial rfl <| .refused rfl <| .done (by decide) rfl <|
      .done (by decide) rfl <| .nil _
  have hresult := premultiplied_run.2.2 _ _ _ (by decide) hsourced hrun
  exact ⟨hresult.1, hresult.2 _ (by simp)⟩

end Surface

end SceneCanvas
