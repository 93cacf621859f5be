import SceneCanvas.Json.Reader
import SceneCanvas.Proofs.Control
import SceneCanvas.Proofs.Magnitude
import SceneCanvas.Proofs.Numeral

/-!
# Integers spelled in JSON

A number that is spelled as an integer keeps its value if it fits a word, and is a double
otherwise. The double may differ from the integer in its last digits, but it is as large and has
the same sign (`Json.Spelling.value?_integer_cases`), which is all that a reader of sizes needs.
-/

namespace SceneCanvas.Json

open Float.Model.UnpackedFloat (Sign)
open Scalar (Large)
open Text (IsRun isDigit signedValue)

/-! ### The digits that fit a word -/

private theorem le_ofDigitChars (ds : List Char) (n : Nat) : n ≤ Nat.ofDigitChars 10 ds n := by
  have hpow : n ≤ 10 ^ ds.length * n := Nat.le_mul_of_pos_left n (Nat.pow_pos (by decide))
  rw [Nat.ofDigitChars_eq_ofDigitChars_zero]
  omega

/-- Either all the digits fit a word, or those that do make a large number. -/
theorem appendFitting_cases {ds : List Char} (hds : ∀ d ∈ ds, isDigit d = true) (n : Nat) :
    appendFitting n ds = (Nat.ofDigitChars 10 ds n, []) ∨
      ∃ leading skipped, appendFitting n ds = (leading, skipped) ∧ skipped ≠ [] ∧
        2 ^ 53 ≤ leading ∧ 2 ^ 64 ≤ Nat.ofDigitChars 10 ds n := by
  induction ds generalizing n with
  | nil => exact .inl rfl
  | cons d ds ih =>
    have hd := Text.isDigit_iff.mp (hds d List.mem_cons_self)
    have hvalue := le_ofDigitChars ds (10 * n + (d.toNat - '0'.toNat))
    have hzero : '0'.toNat = 48 := rfl
    rw [appendFitting, Nat.ofDigitChars_cons]
    split
    next => exact ih (fun c hc => hds c (List.mem_cons_of_mem d hc)) _
    next hfull =>
      refine .inr ⟨n, d :: ds, rfl, List.cons_ne_nil d ds, ?_, ?_⟩ <;>
        simp only [Word.count64, Nat.not_lt] at hfull <;> omega

/-! ### Integers as doubles -/

private theorem scale_ofNat (significand n : Nat) :
    scale significand (.ofNat n) =
      if n ≤ 308 then
        if (Float.ofNat significand * powerOfTen n).isInf then none
        else some (Float.ofNat significand * powerOfTen n)
      else if Float.ofNat significand == 0.0 then some (Float.ofNat significand) else none := rfl

/-- Scaling a large significand up gives a large double, or none at all. -/
theorem large_of_scale_eq_some {significand n : Nat} (hsignificand : 2 ^ 53 ≤ significand)
    {x : Float} (h : scale significand (.ofNat n) = some x) :
    Large .positive 52 x.toModel.unpack := by
  have hlog : 52 ≤ significand.log2 := by
    rw [Nat.le_log2 (by omega)]
    omega
  have hlarge := Scalar.large_ofNat hsignificand
  rw [scale_ofNat] at h
  split at h
  next hn =>
    split at h
    next => cases h
    next =>
      obtain rfl := Option.some.inj h
      have hscaled := Scalar.large_mul (by omega) (by omega) hlarge (Scalar.large_tenPow hn)
      exact hscaled.mono (by omega)
  next =>
    rw [Scalar.ne_zero_of_large hlarge] at h
    cases h

/-- Large doubles have large integer parts, and their sign. -/
private theorem truncate_of_large {x : Float} (h : Large .positive 52 x.toModel.unpack) :
    (2 : Int) ^ 52 ≤ Scalar.truncate x ∧ Scalar.truncate (-x) ≤ 0 := by
  obtain ⟨n, hn, htruncate⟩ := Scalar.exists_truncate_of_large (k := 52) (by decide) h
  obtain ⟨m, -, htruncate'⟩ :=
    Scalar.exists_truncate_of_large (k := 52) (by decide) (Scalar.large_neg (by decide) h)
  rw [htruncate, htruncate']
  exact ⟨Int.ofNat_le.mpr hn, Int.neg_nonpos_of_nonneg (Int.natCast_nonneg m)⟩

/-- The double zero, with a minus sign. -/
private theorem truncate_negZero {x : Float} (h : scale 0 (.ofNat 0) = some x) :
    Scalar.truncate (-x) = 0 := by
  have hzero : (scale 0 (.ofNat 0)).map (fun x => Scalar.truncate (-x)) = some 0 := by
    decide
  rw [h] at hzero
  exact Option.some.inj hzero

/-- The opposite of zero, or of a large integer, has no positive integer part. -/
private theorem truncate_neg_le_zero {n : Nat} (hn : n = 0 ∨ 2 ^ 53 ≤ n) {x : Float}
    (h : scale n (.ofNat 0) = some x) : Scalar.truncate (-x) ≤ 0 := by
  obtain rfl | hn := hn
  · exact (truncate_negZero h).le
  · exact (truncate_of_large (large_of_scale_eq_some hn h)).2

namespace Spelling

/-- The size of an integer that does not fit a word. -/
private theorem size?_integer (negative : Bool) (digits : List Char) :
    Spelling.size? ⟨negative, digits, [], none⟩
      = scale (appendFitting 0 digits).1 (.ofNat (appendFitting 0 digits).2.length) := by
  have hshift (skipped : List Char) :
      (skipped.length : Int) - (([] : List Char).length - ([] : List Char).length : Nat)
        = .ofNat skipped.length := Int.sub_zero _
  rw [size?]
  rcases appendFitting 0 digits with ⟨leading, skipped⟩
  exact congrArg (scale leading) (hshift skipped)

/-- **An integer in JSON** is itself, or else a double with its sign that is large if the integer
is. -/
theorem value?_integer_cases {negative : Bool} {digits : List Char}
    (hdigits : ∀ d ∈ digits, isDigit d = true) {value : Number}
    (h : Spelling.value? ⟨negative, digits, [], none⟩ = some value) :
    let n := Nat.ofDigitChars 10 digits 0
    value = .int (if negative then -n else n) ∨
      ∃ x, value = .float x ∧ (negative = true ∧ Scalar.truncate x ≤ 0 ∨
        negative = false ∧ 2 ^ 52 ≤ n ∧ 2 ^ 52 ≤ Scalar.truncate x) := by
  intro n
  have hsize := size?_integer negative digits
  rw [value?] at h
  obtain hfits | ⟨leading, skipped, hsplit, hne, hleading, hn⟩ := appendFitting_cases hdigits 0
  · rw [hfits] at h hsize
    dsimp only at h
    cases negative with
    | false => exact .inl (Option.some.inj h).symm
    | true =>
      simp only [List.isEmpty_nil, Option.isNone_none, Bool.and_true, Bool.true_and, Bool.not_true,
        Bool.false_eq_true, if_false, if_true, Bool.and_eq_true, decide_eq_true_eq] at h
      split at h
      next => exact .inl (Option.some.inj h).symm
      next hword =>
        -- zero, or an integer below the words
        have hnegative : Word.negative64 = 2 ^ 63 := rfl
        rw [hsize] at h
        obtain ⟨x, hx, rfl⟩ := Option.map_eq_some_iff.mp h
        exact .inr ⟨_, rfl, .inl ⟨rfl, truncate_neg_le_zero (by omega) hx⟩⟩
  · -- digits are left over, so the number is a double
    have hempty : skipped.isEmpty = false := List.isEmpty_eq_false_iff.mpr hne
    rw [hsplit] at h hsize
    rw [hsize] at h
    simp only [hempty, Bool.false_and, Bool.false_eq_true, if_false] at h
    obtain ⟨x, hx, rfl⟩ := Option.map_eq_some_iff.mp h
    have hlarge := truncate_of_large (large_of_scale_eq_some hleading hx)
    refine .inr ⟨_, rfl, ?_⟩
    cases negative with
    | false => exact .inr ⟨rfl, by omega, hlarge.1⟩
    | true => exact .inl ⟨rfl, hlarge.2⟩

end Spelling

/-! ### Reading an integer -/

/-- The spelling of an integer with this sign and these digits. -/
def integerText (negative : Bool) (digits : List Char) : List Char :=
  if negative then '-' :: digits else digits

/-- Digits are the whole part of a number, unless there is a zero in front of others. -/
theorem readWhole_digits {digits : List Char} (hdigits : ∀ d ∈ digits, isDigit d = true)
    {read : List Char × List Char} (h : readWhole digits = some read) : read = (digits, []) := by
  have hrun : IsRun digits [] := ⟨hdigits, nofun⟩
  have htake := hrun.takeWhile_eq
  have hdrop := hrun.dropWhile_eq
  rw [List.append_nil] at htake hdrop
  unfold readWhole at h
  split at h
  next rest =>
    cases rest with
    | nil => exact (Option.some.inj h).symm
    | cons c rest =>
      have hc := hdigits c (List.mem_cons_of_mem _ List.mem_cons_self)
      dsimp only at h
      rw [hc] at h
      cases h
  next =>
    rw [readDigits, htake, hdrop] at h
    split at h
    next => cases h
    next => exact (Option.some.inj h).symm

theorem readSize_digits (negative : Bool) {digits : List Char}
    (hdigits : ∀ d ∈ digits, isDigit d = true) {read : Spelling × List Char}
    (h : readSize negative digits = some read) : read = (⟨negative, digits, [], none⟩, []) := by
  rw [readSize] at h
  obtain ⟨whole, hwhole, hrest⟩ := Option.bind_eq_some_iff.mp h
  obtain rfl := readWhole_digits hdigits hwhole
  exact (Option.some.inj hrest).symm

section Heads

variable {c : Char} (hc : c = '-' ∨ isDigit c = true)

include hc

/-- The first character of an integer is that of no other document, nor is it white space. -/
private theorem head_ne {d : Char} (hsign : d ≠ '-') (hdigit : isDigit d = false) : c ≠ d := by
  rintro rfl
  obtain rfl | hc := hc
  · exact hsign rfl
  · rw [hdigit] at hc
    cases hc

theorem isSpace_head : isSpace c = false := by
  have hne {d : Char} (hsign : d ≠ '-') (hdigit : isDigit d = false) : (c == d) = false :=
    beq_eq_false_iff_ne.mpr (head_ne hc hsign hdigit)
  rw [isSpace, hne (by decide) (by decide), hne (by decide) (by decide),
    hne (by decide) (by decide), hne (by decide) (by decide)]
  rfl

theorem readScalar_integer (checked : Bool) (rest : List Char) :
    readScalar checked (c :: rest)
      = (readNumber (c :: rest)).bind fun (spelling, rest) =>
          leaf checked .number spelling.value? rest := by
  unfold readScalar
  split
  next heq => cases heq; exact absurd rfl (head_ne hc (by decide) (by decide))
  next heq => cases heq; exact absurd rfl (head_ne hc (by decide) (by decide))
  next heq => cases heq; exact absurd rfl (head_ne hc (by decide) (by decide))
  next heq => cases heq; exact absurd rfl (head_ne hc (by decide) (by decide))
  next => rfl

theorem readValue_integer (checked : Bool) (room : Nat) (rest : List Char) :
    readValue checked room (c :: rest) = readScalar checked (c :: rest) := by
  cases room with
  | zero => rfl
  | succ room =>
    unfold readValue
    split
    next heq => cases heq; exact absurd rfl (head_ne hc (by decide) (by decide))
    next heq => cases heq; exact absurd rfl (head_ne hc (by decide) (by decide))
    next => rfl

end Heads

theorem readNumber_integer (negative : Bool) {digits : List Char}
    (hdigits : ∀ d ∈ digits, isDigit d = true) :
    readNumber (integerText negative digits) = readSize negative digits := by
  cases negative with
  | true => rfl
  | false =>
    unfold integerText readNumber
    rw [if_neg Bool.false_ne_true]
    split
    next rest => exact absurd (hdigits '-' List.mem_cons_self) (by decide)
    next => rfl

/-- **A text that spells an integer** is read as that number. -/
theorem eq_number_of_parseChecked? {negative : Bool} {digits : List Char}
    (hdigits : ∀ d ∈ digits, isDigit d = true) (hne : digits ≠ []) {raw : Json}
    (h : parseChecked? (integerText negative digits) = some raw) :
    ∃ value, raw = .number (some value) ∧
      Spelling.value? ⟨negative, digits, [], none⟩ = some value := by
  obtain ⟨c, rest, htext, hc⟩ : ∃ c rest, integerText negative digits = c :: rest ∧
      (c = '-' ∨ isDigit c = true) := by
    cases negative with
    | true => exact ⟨'-', digits, rfl, .inl rfl⟩
    | false =>
      obtain ⟨d, ds, rfl⟩ := List.exists_cons_of_ne_nil hne
      exact ⟨d, ds, rfl, .inr (hdigits d List.mem_cons_self)⟩
  have hspace : skipSpace (c :: rest) = c :: rest := by
    rw [skipSpace, List.dropWhile_cons, isSpace_head hc]
    rfl
  rw [parseChecked?, parse?, htext, hspace, readValue_integer hc, readScalar_integer hc, ← htext,
    readNumber_integer negative hdigits] at h
  obtain ⟨⟨document, after⟩, hread, hdocument⟩ := Option.bind_eq_some_iff.mp h
  obtain ⟨⟨spelling, after'⟩, hsize, hleaf⟩ := Option.bind_eq_some_iff.mp hread
  cases readSize_digits negative hdigits hsize
  dsimp only [leaf] at hleaf
  cases hvalue : Spelling.value? ⟨negative, digits, [], none⟩ with
  | none => rw [hvalue] at hleaf; cases hleaf
  | some value =>
    rw [hvalue] at hleaf
    cases hleaf
    cases hdocument
    exact ⟨value, rfl, rfl⟩

end SceneCanvas.Json
