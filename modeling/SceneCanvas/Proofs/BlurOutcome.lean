import SceneCanvas.Proofs.BlurReach
import SceneCanvas.Proofs.ExactBlur

/-!
# What comes of a gaussian blur

A blur refuses a deviation that is no number or negative, and a buffer of another length than the
sizes call for; otherwise it gives a buffer of that length. With a small deviation this is so for
all sizes, since the length that the sizes call for is computed with care. With a large one neither
that length nor the far end of a window is kept from exceeding a 64-bit word
(`Buffer.BlurOverflows`).

* `isDeviation_iff` says that every finite deviation that is not negative has a kernel.
* `Buffer.windowsFit_iff` ties the check of the windows to the sums that are formed, and
  `Buffer.windowsFit_of_le` to the width of the boxes.
* `Buffer.gaussian_blur_outcome` tells the three outcomes apart.
-/

namespace SceneCanvas

/-! ### Deviations -/

/-- What is not less than a tenth is above zero. -/
private theorem not_le_zero_of_not_lt {sigma : Float32} (hfinite : sigma.isFinite = true)
    (hnonneg : ¬ sigma < 0.0) (htenth : ¬ sigma < 0.1) : ¬ sigma ≤ 0.0 := by
  obtain ⟨s, hzero⟩ : ∃ s, (0.0 : Float32).toModel.unpack = .zero s := ⟨_, rfl⟩
  obtain ⟨m, e, hm, hsmall⟩ : ∃ m e hm, (0.1 : Float32).toModel.unpack = .finite .positive m e hm :=
    ⟨_, _, _, rfl⟩
  have hnumber : sigma.toModel.unpack.isFinite = true := hfinite
  rw [Scalar.single_lt_iff, hzero] at hnonneg
  rw [Scalar.single_lt_iff, hsmall] at htenth
  rw [Scalar.single_le_iff, hzero]
  cases hsigma : sigma.toModel.unpack with
  | infinity | notANumber => rw [hsigma] at hnumber; cases hnumber
  | zero => exact absurd (by rw [hsigma]; rfl) htenth
  | finite sign mantissa exponent hpos =>
    cases sign with
    | negative => exact absurd (by rw [hsigma]; rfl) hnonneg
    | positive => exact Bool.false_ne_true

/-- **Every number that is not negative** can be a deviation. -/
theorem isDeviation_iff {sigma : Float32} :
    IsDeviation sigma ↔ sigma.isFinite = true ∧ ¬ sigma < 0.0 := by
  refine ⟨fun h => ⟨h.isFinite, h.nonneg⟩, fun ⟨hfinite, hnonneg⟩ => ?_⟩
  have htenth : (0.1 : Float32).isFinite = true ∧ ¬ (0.1 : Float32) ≤ 0.0 := by decide
  have hheld : (Scalar.greater sigma 0.1).isFinite = true ∧ ¬ Scalar.greater sigma 0.1 ≤ 0.0 := by
    rw [Scalar.greater]
    split
    next => exact htenth
    next =>
      split
      next => exact htenth
      next hnotBelow =>
        exact ⟨hfinite, not_le_zero_of_not_lt hfinite hnonneg fun h =>
          hnotBelow (decide_eq_true h)⟩
  exact ⟨hfinite, hnonneg, hheld.1, hheld.2⟩

/-! ### Sums under a kernel -/

namespace Kernel

/-- No kernel of a blur is so heavy that a sum of bytes under it exceeds a word. -/
theorem mass_mul_lt_of_gaussian_eq_ok {radius : Nat} {sigma : Float32} {k : Kernel}
    (hk : gaussian radius sigma = .ok k) (hradius : radius < Word.count32) :
    k.mass * 255 + unit / 2 < Word.count64 := by
  have hunit : unit = 65536 := rfl
  have hword32 : Word.count32 = 4294967296 := rfl
  have hword64 : Word.count64 = 18446744073709551616 := rfl
  rw [gaussian] at hk
  split at hk
  next =>
    cases hk
    decide
  next =>
    split at hk
    next => cases hk
    next =>
      cases hk
      have hmass := mass_le_size_mul fun q (hq : q ∈ quantize (bell radius sigma.toFloat)) =>
        le_unit_of_mem_quantize hq
      rw [size_quantize, size_bell, hunit] at hmass
      omega

end Kernel

namespace Buffer

/-! ### Windows -/

/-- Every sum of a place and a window that is slid over a row or a column of `w` by `h` pixels is a
64-bit word. -/
def WindowsFit (w h : Nat) (boxes : List BoxPass) : Prop :=
  ∀ box ∈ boxes, (0 < h → ∀ i < w, i + box.size < Word.count64) ∧
    (0 < w → ∀ i < h, i + box.size < Word.count64)

theorem slides_iff {n : Nat} {box : BoxPass} :
    slides n box = true ↔ ∀ i < n, i + box.size < Word.count64 := by
  rw [slides, Bool.or_eq_true, beq_iff_eq, decide_eq_true_iff]
  refine ⟨fun h i hi => by omega, fun h => ?_⟩
  obtain hn | hn := Nat.eq_zero_or_pos n
  · exact .inl hn
  · exact .inr (h (n - 1) (Nat.sub_lt hn Nat.one_pos))

theorem windowsFit_iff {src : Buffer} {w h : Nat} (hsize : src.size = w * h * 4)
    {boxes : List BoxPass} :
    (src.isEmpty || boxes.all fun box => slides w box && slides h box) = true
      ↔ WindowsFit w h boxes := by
  have hempty : src.isEmpty = true ↔ w = 0 ∨ h = 0 := by
    rw [Array.isEmpty_iff_size_eq_zero, hsize, Nat.mul_eq_zero, Nat.mul_eq_zero]
    omega
  rw [Bool.or_eq_true, hempty, List.all_eq_true, WindowsFit]
  simp only [Bool.and_eq_true, slides_iff]
  constructor
  · rintro ((rfl | rfl) | hslides) box hbox
    · exact ⟨fun _ i hi => absurd hi (Nat.not_lt_zero i), fun h => absurd h (Nat.lt_irrefl 0)⟩
    · exact ⟨fun h => absurd h (Nat.lt_irrefl 0), fun _ i hi => absurd hi (Nat.not_lt_zero i)⟩
    · exact ⟨fun _ => (hslides box hbox).1, fun _ => (hslides box hbox).2⟩
  · intro hfit
    obtain hw | hw := Nat.eq_zero_or_pos w
    · exact .inl (.inl hw)
    · obtain hh | hh := Nat.eq_zero_or_pos h
      · exact .inl (.inr hh)
      · exact .inr fun box hbox => ⟨(hfit box hbox).1 hh, (hfit box hbox).2 hw⟩

/-- Windows that leave room for all places of a row or a column fit, wherever they are slid. -/
theorem windowsFit_of_le {w h d : Nat} (hw : w < Word.count32) (hh : h < Word.count32)
    (hd : d + Word.count32 < Word.count64) : WindowsFit w h (BoxPass.triple d) := by
  intro box hbox
  have hbound := (BoxPass.left_le_size_of_mem_triple hbox).2
  exact ⟨fun _ i hi => by omega, fun _ i hi => by omega⟩

/-! ### Outcomes -/

/-- The calls of a blur on which the arithmetic of the box passes exceeds a 64-bit word: the length
that the sizes call for does, or the length is right and the far end of a window does. -/
structure BlurOverflows (src : Buffer) (w h : Nat) (sigma : Float32) : Prop where
  isFinite : sigma.isFinite = true
  nonneg : ¬ sigma < 0.0
  isWide : ¬ sigma < boxDeviation
  exceeds : Word.count64 ≤ w * h * 4 ∨
    src.size = w * h * 4 ∧ ¬ WindowsFit w h (BoxPass.triple (BoxPass.sizeFor sigma))

/-- A blur comes to `out` with every index in range, and with every sum a 64-bit word: those under
the kernel, which is short, if the deviation is small, and those of places and windows otherwise. -/
def BlursTo (src : Buffer) (w h : Nat) (sigma : Float32) (out : Buffer) : Prop :=
  if sigma < boxDeviation then
    blurReach sigma ≤ 16 ∧
    src.exactBlur? w h (blurReach sigma) (Scalar.greater sigma 0.1) = some out ∧
    ∃ k, Kernel.gaussian (blurReach sigma) (Scalar.greater sigma 0.1) = .ok k ∧
      ∀ (n : Nat) (sample : Nat → Nat), (∀ i < n, sample i ≤ 255) →
        ∀ x, k.sumAtWord? n sample x = some (k.sumAt n sample x)
  else
    src.boxBlur? w h (BoxPass.triple (BoxPass.sizeFor sigma)) = some out ∧
    WindowsFit w h (BoxPass.triple (BoxPass.sizeFor sigma))

section Outcomes

variable {src : Buffer} {w h : Nat} {sigma : Float32}

theorem gaussianBlur_of_not_isDeviation (hsigma : sigma.isFinite = false ∨ sigma < 0.0) :
    src.gaussianBlur w h sigma = .error .blurDeviation := by
  rw [gaussianBlur, if_pos]
  rw [Bool.or_eq_true, Bool.not_eq_true', decide_eq_true_iff]
  exact hsigma

variable (hfinite : sigma.isFinite = true) (hnonneg : ¬ sigma < 0.0)

include hfinite hnonneg

theorem gaussianBlur_of_lt (hsmall : sigma < boxDeviation) : src.gaussianBlur w h sigma
    = src.exactBlur w h (blurReach sigma) (Scalar.greater sigma 0.1) := by
  rw [gaussianBlur, if_neg (by simp [hfinite, hnonneg]), if_pos hsmall]

/-- The three ways of a wide blur. -/
theorem gaussianBlur_of_not_lt (hwide : ¬ sigma < boxDeviation) : src.gaussianBlur w h sigma
    = if Word.count64 ≤ w * h * 4 then .error .wordOverflow
      else if src.size ≠ w * h * 4 then .error .gaussianLength
      else if src.isEmpty || (BoxPass.triple (BoxPass.sizeFor sigma)).all fun box =>
        slides w box && slides h box then
        .ok (src.boxBlur w h (BoxPass.triple (BoxPass.sizeFor sigma)))
      else .error .wordOverflow := by
  rw [gaussianBlur, if_neg (by simp [hfinite, hnonneg]), if_neg hwide]

/-- **A small deviation** is refused for its sizes only. -/
theorem gaussianBlur_cases_of_lt (hsrc : src.size < Word.count64) (hsmall : sigma < boxDeviation) :
    (src.size ≠ w * h * 4 ∧ ∃ e, src.gaussianBlur w h sigma = .error e ∧ e.kind = .render) ∨
    (src.size = w * h * 4 ∧ ∃ out, src.gaussianBlur w h sigma = .ok out ∧ out.size = src.size ∧
      src.BlursTo w h sigma out) := by
  obtain ⟨-, -, hfinite', hpos⟩ := isDeviation_iff.mpr ⟨hfinite, hnonneg⟩
  rw [gaussianBlur_of_lt hfinite hnonneg hsmall]
  by_cases hsize : src.size = w * h * 4
  · obtain ⟨out, hout, hchecked, houtSize⟩ :=
      exactBlur?_eq_some (hsize ▸ hsrc) hsize hfinite' hpos (blurReach sigma)
    obtain ⟨k, hk, -⟩ := Kernel.exists_gaussian_eq_ok hfinite' hpos (blurReach sigma)
    refine .inr ⟨hsize, out, hout, houtSize.trans hsize.symm, ?_⟩
    rw [BlursTo, if_pos hsmall]
    exact ⟨blurReach_le_of_lt_two hfinite hnonneg hsmall, hchecked, k, hk, fun n sample hsample x =>
      Kernel.sumAtWord?_eq_some (Kernel.mass_mul_lt_of_gaussian_eq_ok hk (UInt32.toNat_lt _))
        hsample x⟩
  · refine .inl ⟨hsize, ?_⟩
    rw [exactBlur]
    split
    next => exact ⟨_, rfl, rfl⟩
    next => exact ⟨_, rfl, rfl⟩

/-- **A large deviation** is refused for its sizes, unless the arithmetic exceeds a word. -/
theorem gaussianBlur_cases_of_not_lt (hwide : ¬ sigma < boxDeviation) :
    (src.BlurOverflows w h sigma ∧ src.gaussianBlur w h sigma = .error .wordOverflow) ∨
    (¬ src.BlurOverflows w h sigma ∧ src.size ≠ w * h * 4 ∧
      src.gaussianBlur w h sigma = .error .gaussianLength) ∨
    (¬ src.BlurOverflows w h sigma ∧ src.size = w * h * 4 ∧
      ∃ out, src.gaussianBlur w h sigma = .ok out ∧ out.size = src.size ∧
        src.BlursTo w h sigma out) := by
  rw [gaussianBlur_of_not_lt hfinite hnonneg hwide]
  split
  next hlarge => exact .inl ⟨⟨hfinite, hnonneg, hwide, .inl hlarge⟩, rfl⟩
  next hword =>
    by_cases hsize : src.size = w * h * 4
    · rw [if_neg (not_not.mpr hsize)]
      split
      next hslides =>
        have hfit := (windowsFit_iff hsize).mp hslides
        have hboxes := boxBlur?_eq_some hsize fun box hbox =>
          (BoxPass.left_le_size_of_mem_triple (d := BoxPass.sizeFor sigma) hbox).1
        refine .inr (.inr ⟨fun hover => hover.exceeds.elim hword fun h => h.2 hfit, hsize, _, rfl,
          hboxes.2.trans hsize.symm, ?_⟩)
        rw [BlursTo, if_neg hwide]
        exact ⟨hboxes.1, hfit⟩
      next hslides =>
        have hfit := mt (windowsFit_iff hsize).mpr hslides
        exact .inl ⟨⟨hfinite, hnonneg, hwide, .inr ⟨hsize, hfit⟩⟩, rfl⟩
    · rw [if_pos hsize]
      exact .inr (.inl ⟨fun hover => hover.exceeds.elim hword fun h => hsize h.1, hsize, rfl⟩)

end Outcomes

/-- A call exceeds a word, is refused, or succeeds. -/
theorem gaussianBlur_cases {src : Buffer} (hsrc : src.size < Word.count64) (w h : Nat)
    (sigma : Float32) :
    (src.BlurOverflows w h sigma ∧ src.gaussianBlur w h sigma = .error .wordOverflow) ∨
    (¬ src.BlurOverflows w h sigma ∧
      (sigma.isFinite = false ∨ sigma < 0.0 ∨ src.size ≠ w * h * 4) ∧
      ∃ e, src.gaussianBlur w h sigma = .error e ∧ (e.kind = .validation ∨ e.kind = .render)) ∨
    (¬ src.BlurOverflows w h sigma ∧
      ¬ (sigma.isFinite = false ∨ sigma < 0.0 ∨ src.size ≠ w * h * 4) ∧
      ∃ out, src.gaussianBlur w h sigma = .ok out ∧ out.size = src.size ∧
        src.BlursTo w h sigma out) := by
  by_cases hsigma : sigma.isFinite = false ∨ sigma < 0.0
  · have hrefused : src.gaussianBlur w h sigma = .error .blurDeviation :=
      gaussianBlur_of_not_isDeviation hsigma
    refine .inr (.inl ⟨fun hover => ?_, by tauto, _, hrefused, .inl rfl⟩)
    exact hsigma.elim (fun hinfinite => by simp [hover.isFinite] at hinfinite) hover.nonneg
  · obtain ⟨hfinite, hnonneg⟩ := not_or.mp hsigma
    rw [Bool.not_eq_false] at hfinite
    by_cases hwide : sigma < boxDeviation
    · have hnot : ¬ src.BlurOverflows w h sigma := fun hover => hover.isWide hwide
      obtain ⟨hsize, e, he, hkind⟩ | ⟨hsize, hok⟩ :=
        gaussianBlur_cases_of_lt hfinite hnonneg hsrc hwide
      · exact .inr (.inl ⟨hnot, .inr (.inr hsize), e, he, .inr hkind⟩)
      · exact .inr (.inr ⟨hnot, by tauto, hok⟩)
    · obtain hover | ⟨hnot, hsize, he⟩ | ⟨hnot, hsize, hok⟩ :=
        @gaussianBlur_cases_of_not_lt src w h sigma hfinite hnonneg hwide
      · exact .inl hover
      · exact .inr (.inl ⟨hnot, .inr (.inr hsize), _, he, .inr rfl⟩)
      · exact .inr (.inr ⟨hnot, by tauto, hok⟩)

/-- **What comes of a gaussian blur.** The arithmetic exceeds a 64-bit word on the calls of
`Buffer.BlurOverflows` and on no others. Of the other calls, those with a deviation that is no
finite number or is negative, and those with a buffer of another length than the sizes call for, are
refused, and all the others succeed and keep the length. Since this does not depend on which of the
two blurs a deviation is for, both refuse the same sizes. Nothing is exceeded if the length that the
sizes call for is a word and the boxes leave room for a row or a column. -/
theorem gaussian_blur_outcome {src : Buffer} (hsrc : src.size < Word.count64) (w h : UInt32)
    (sigma : Float32) :
    (src.gaussianBlur w.toNat h.toNat sigma = .error .wordOverflow
      ↔ src.BlurOverflows w.toNat h.toNat sigma) ∧
    (¬ src.BlurOverflows w.toNat h.toNat sigma →
      (sigma.isFinite = false ∨ sigma < 0.0 ∨ src.size ≠ w.toNat * h.toNat * 4 →
        ∃ e, src.gaussianBlur w.toNat h.toNat sigma = .error e ∧
          (e.kind = .validation ∨ e.kind = .render)) ∧
      (sigma.isFinite = true → ¬ sigma < 0.0 → src.size = w.toNat * h.toNat * 4 →
        ∃ out, src.gaussianBlur w.toNat h.toNat sigma = .ok out ∧ out.size = src.size ∧
          src.BlursTo w.toNat h.toNat sigma out)) ∧
    (w.toNat * h.toNat * 4 < Word.count64 →
      BoxPass.sizeFor sigma + Word.count32 < Word.count64 →
      ¬ src.BlurOverflows w.toNat h.toNat sigma) := by
  have hcases := gaussianBlur_cases hsrc w.toNat h.toNat sigma
  refine ⟨⟨fun hwordOverflow => ?_, fun hover => ?_⟩, fun hnot => ⟨fun hrefused => ?_,
    fun hfinite hnonneg hsize => ?_⟩, fun hword hd hover => ?_⟩
  · obtain ⟨hover, -⟩ | ⟨-, -, e, he, hkind⟩ | ⟨-, -, out, hout, -⟩ := hcases
    · exact hover
    · cases hwordOverflow.symm.trans he
      rcases hkind with hkind | hkind <;> cases hkind
    · cases hwordOverflow.symm.trans hout
  · obtain ⟨-, hwordOverflow⟩ | ⟨hnot, -⟩ | ⟨hnot, -⟩ := hcases
    · exact hwordOverflow
    · exact absurd hover hnot
    · exact absurd hover hnot
  · obtain ⟨hover, -⟩ | ⟨-, -, herror⟩ | ⟨-, hvalid, -⟩ := hcases
    · exact absurd hover hnot
    · exact herror
    · exact absurd hrefused hvalid
  · obtain ⟨hover, -⟩ | ⟨-, hrefused, -⟩ | ⟨-, -, hok⟩ := hcases
    · exact absurd hover hnot
    · rw [hfinite] at hrefused
      tauto
    · exact hok
  · rcases hover.exceeds with hlarge | ⟨-, hfit⟩
    · exact absurd hlarge (Nat.not_le.mpr hword)
    · exact hfit (windowsFit_of_le w.toNat_lt h.toNat_lt hd)

/-- Two pixels are blurred with a deviation of ten, three rows of them are refused, and so is the
infinite deviation. -/
theorem gaussian_blur_outcome_pair :
    let src : Buffer := #[0, 0, 0, 255, 255, 255, 255, 255]
    let sigma := UInt32.toFloat32 10
    (∃ out, src.gaussianBlur 2 1 sigma = .ok out ∧ out.size = 8) ∧
      (∃ e, src.gaussianBlur 2 3 sigma = .error e) ∧
      ∃ e, src.gaussianBlur 2 1 (1.0 / 0.0) = .error e := by
  intro src sigma
  obtain ⟨-, hpair, hnot⟩ := @gaussian_blur_outcome src (by decide) 2 1 sigma
  obtain ⟨-, hrows, hnotRows⟩ := @gaussian_blur_outcome src (by decide) 2 3 sigma
  obtain ⟨-, hinfinite, -⟩ := @gaussian_blur_outcome src (by decide) 2 1 (1.0 / 0.0)
  have hten : (10 : UInt32) ≤ 128 := by decide
  have hbox : BoxPass.sizeFor sigma + Word.count32 < Word.count64 :=
    Nat.lt_of_le_of_lt (Nat.add_le_add_right (BoxPass.sizeFor_le hten) _) (by decide)
  obtain ⟨hfinite, hnonneg, -, -⟩ := isDeviation_of_pixels hten
  obtain ⟨out, hout, hsize, -⟩ := (hpair (hnot (by decide) hbox)).2 hfinite hnonneg rfl
  obtain ⟨e, he, -⟩ := (hrows (hnotRows (by decide) hbox)).1 (.inr (.inr (by decide)))
  obtain ⟨e', he', -⟩ := (hinfinite fun hover => absurd hover.isFinite (by decide)).1
    (.inl (by decide))
  exact ⟨⟨out, hout, hsize⟩, ⟨e, he⟩, e', he'⟩

/-- **Wide blurs exceed words**: no bytes at all with sizes of `2 ^ 31` each, which a small
deviation refuses, and two pixels with a deviation near the largest single. -/
theorem wide_blur_exceeds_words :
    ¬ (∀ (src : Buffer) (w h : UInt32) (sigma : Float32), src.size < Word.count64 →
      (sigma.isFinite = false ∨ sigma < 0.0 ∨ src.size ≠ w.toNat * h.toNat * 4) →
      ∃ e, src.gaussianBlur w.toNat h.toNat sigma = .error e ∧ e.kind ≠ .overflow) ∧
    ¬ (∀ (src : Buffer) (w h : UInt32) (sigma sigma' : Float32), src.size < Word.count64 →
      sigma.isFinite = true → ¬ sigma < 0.0 → sigma'.isFinite = true → ¬ sigma' < 0.0 →
      (src.gaussianBlur w.toNat h.toNat sigma).mapError SceneError.kind = .error .render →
      (src.gaussianBlur w.toNat h.toNat sigma').mapError SceneError.kind = .error .render) ∧
    ¬ (∀ (src : Buffer) (w h : UInt32) (sigma : Float32), src.size < Word.count64 →
      sigma.isFinite = true → ¬ sigma < 0.0 → src.size = w.toNat * h.toNat * 4 →
      ∃ out, src.gaussianBlur w.toNat h.toNat sigma = .ok out ∧ out.size = src.size) := by
  have hlength : gaussianBlur #[] (UInt32.toNat 2147483648) (UInt32.toNat 2147483648) 2.0
      = .error .wordOverflow := by decide
  have hwindow : gaussianBlur #[0, 0, 0, 255, 255, 255, 255, 255] (UInt32.toNat 2)
      (UInt32.toNat 1) 3e38 = .error .wordOverflow := by decide +kernel
  refine ⟨fun hrefused => ?_, fun halike => ?_, fun hblurred => ?_⟩
  · obtain ⟨e, he, hkind⟩ := hrefused #[] 2147483648 2147483648 2.0 (by decide)
      (.inr (.inr (by decide)))
    cases hlength.symm.trans he
    exact hkind rfl
  · have hsame := halike #[] 2147483648 2147483648 1.0 2.0 (by decide) (by decide)
      (by decide) (by decide) (by decide) (by decide)
    rw [hlength] at hsame
    cases hsame
  · obtain ⟨out, hout, -⟩ := hblurred #[0, 0, 0, 255, 255, 255, 255, 255] 2 1 3e38 (by decide)
      (by decide +kernel) (by decide +kernel) rfl
    cases hwindow.symm.trans hout

end Buffer

end SceneCanvas
