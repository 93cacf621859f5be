import SceneCanvas.Proofs.Numeral
import Mathlib

/-!
# Numerals at the start of a text

A decimal numeral is a sign or none, digits with a point among them or before or behind them, and an
exponent or none: `[+-]?(D+(.D*)?|.D+)([eE][+-]?D+)?`. `Text.DecimalNumeral` is that grammar, with
the value of each numeral, and mentions no reader.

* The spans are the longest numerals that a text starts with, and empty if it starts with none
  (`Text.isLongestPrefix_decimalSpan`, `Text.isLongestPrefix_integerSpan`).
* The reader of decimals takes every numeral, at its value (`Text.DecimalNumeral.exists_ofChars?`).
-/

namespace SceneCanvas.Text

/-! ### The grammar -/

/-- Digits, and no other character. -/
def AllDigits (ds : List Char) : Prop := ∀ d ∈ ds, isDigit d = true

/-- The number that digits spell. -/
def digitsNumber (ds : List Char) : Nat := Nat.ofDigitChars 10 ds 0

/-- The part of a decimal before its exponent, without its sign, and its value. -/
inductive Mantissa : List Char → Rat → Prop where
  | whole {whole : List Char} (hwhole : AllDigits whole) (hne : whole ≠ []) :
      Mantissa whole (digitsNumber whole)
  | point {whole fraction : List Char} (hwhole : AllDigits whole) (hne : whole ≠ [])
      (hfraction : AllDigits fraction) :
      Mantissa (whole ++ '.' :: fraction)
        (digitsNumber whole + digitsNumber fraction / 10 ^ fraction.length)
  | fraction {fraction : List Char} (hfraction : AllDigits fraction) (hne : fraction ≠ []) :
      Mantissa ('.' :: fraction) (digitsNumber fraction / 10 ^ fraction.length)

/-- The exponent of a decimal, or none. -/
inductive Exponent : List Char → Int → Prop where
  | absent : Exponent [] 0
  | marked {mark : Char} {numeral : List Char} {e : Int} (hmark : isExponentMark mark = true)
      (hnumeral : IntegerNumeral numeral e) : Exponent (mark :: numeral) e

/-- A decimal, whether it has a minus sign, and its size. -/
inductive DecimalNumeral : List Char → Bool → Rat → Prop where
  | intro {sign mantissa exponent : List Char} {v : Rat} {e : Int} (hsign : IsSign sign)
      (hmantissa : Mantissa mantissa v) (hexponent : Exponent exponent e) :
      DecimalNumeral (sign ++ (mantissa ++ exponent)) (sign == ['-']) (v * 10 ^ e)

/-- A decimal of any value. -/
def IsDecimal (numeral : List Char) : Prop := ∃ negative size, DecimalNumeral numeral negative size

/-- An integer of any value. -/
def IsInteger (numeral : List Char) : Prop := ∃ n, IntegerNumeral numeral n

/-- The longest beginning of a text with a property. -/
structure IsLongestPrefix (P : List Char → Prop) (p text : List Char) : Prop where
  holds : P p
  isPrefix : p <+: text
  length_le : ∀ q, P q → q <+: text → q.length ≤ p.length

/-- There is one such beginning. -/
theorem IsLongestPrefix.unique {P : List Char → Prop} {p q text : List Char}
    (hp : IsLongestPrefix P p text) (hq : IsLongestPrefix P q text) : p = q := by
  have hlength : p.length = q.length :=
    le_antisymm (hq.length_le p hp.holds hp.isPrefix) (hp.length_le q hq.holds hq.isPrefix)
  exact (List.prefix_of_prefix_length_le hp.isPrefix hq.isPrefix hlength.le).eq_of_length hlength

/-! ### Integers -/

/-- A sign is split off, and after it all digits. -/
theorem takeSignedDigits_sign_append {sign rest : List Char} (hsign : IsSign sign)
    (hrest : ∀ c ∈ rest.head?, isSign c = false) :
    takeSignedDigits (sign ++ rest) = (sign, rest.takeWhile isDigit, rest.dropWhile isDigit) := by
  have htake : takeSign (sign ++ rest) = (sign, rest) := by
    cases hsign with
    | none =>
      cases rest with
      | nil => rfl
      | cons c rest => rw [List.nil_append, takeSign, hrest c rfl]; rfl
    | plus => rfl
    | minus => rfl
  rw [takeSignedDigits, htake]

/-- Digits do not start with a sign. -/
theorem isSign_of_mem_head?_append {ds : List Char} (hds : AllDigits ds) (hne : ds ≠ [])
    (rest : List Char) : ∀ c ∈ (ds ++ rest).head?, isSign c = false := by
  obtain ⟨d, ds, rfl⟩ := List.exists_cons_of_ne_nil hne
  intro c hc
  obtain rfl : d = c := Option.some.inj hc
  exact isSign_of_isDigit (hds d List.mem_cons_self)

/-- The span of an integer is one, if it is not empty, and the text starts with it. -/
theorem integerSpan_spec (cs : List Char) :
    integerSpan cs <+: cs ∧ (integerSpan cs ≠ [] → IsInteger (integerSpan cs)) := by
  obtain ⟨sign, digits, rest, htake, hsign, hrun, rfl⟩ := exists_takeSignedDigits cs
  rw [integerSpan, htake]
  dsimp only
  split
  next => exact ⟨List.nil_prefix, fun h => absurd rfl h⟩
  next hdigits =>
    rw [← List.append_assoc]
    exact ⟨List.prefix_append _ _, fun _ =>
      ⟨_, .intro hsign (fun h => hdigits (List.isEmpty_iff.mpr h)) hrun.isDigit⟩⟩

/-- It is as long as any integer that the text starts with. -/
theorem length_le_integerSpan {numeral : List Char} (h : IsInteger numeral) (rest : List Char) :
    numeral.length ≤ (integerSpan (numeral ++ rest)).length := by
  obtain ⟨n, hsign, hne, hdigits⟩ := h
  rename_i sign digits
  have hall : (digits ++ rest).takeWhile isDigit = digits ++ rest.takeWhile isDigit :=
    List.takeWhile_append_of_pos hdigits
  have hempty : (digits ++ rest.takeWhile isDigit).isEmpty = false :=
    List.isEmpty_eq_false_iff.mpr fun heq => hne (List.append_eq_nil_iff.mp heq).1
  rw [List.append_assoc, integerSpan, takeSignedDigits_sign_append hsign
    (isSign_of_mem_head?_append hdigits hne rest), hall]
  dsimp only
  rw [hempty, if_neg Bool.false_ne_true, ← List.append_assoc]
  exact (List.prefix_append _ _).length_le

/-- An integer is no empty text. -/
theorem IsInteger.ne_nil {numeral : List Char} (h : IsInteger numeral) : numeral ≠ [] := by
  obtain ⟨n, hsign, hne, hdigits⟩ := h
  exact fun heq => hne (List.append_eq_nil_iff.mp heq).2

/-! ### Exponents -/

/-- An exponent is a mark and an integer. -/
theorem exponentSpan_cons (c : Char) (rest : List Char) :
    exponentSpan (c :: rest)
      = if isExponentMark c ∧ integerSpan rest ≠ [] then c :: integerSpan rest else [] := by
  rw [exponentSpan, integerSpan]
  obtain ⟨sign, digits, rest', htake, -, -, -⟩ := exists_takeSignedDigits rest
  rw [htake]
  cases isExponentMark c <;> cases digits <;> simp

theorem exponentSpan_spec (cs : List Char) :
    exponentSpan cs <+: cs ∧ ∃ e, Exponent (exponentSpan cs) e := by
  cases cs with
  | nil => exact ⟨List.nil_prefix, 0, .absent⟩
  | cons c rest =>
    rw [exponentSpan_cons]
    obtain ⟨hstart, hinteger⟩ := integerSpan_spec rest
    split
    next h =>
      obtain ⟨e, he⟩ := hinteger h.2
      exact ⟨(List.prefix_cons_inj c).mpr hstart, e, .marked h.1 he⟩
    next => exact ⟨List.nil_prefix, 0, .absent⟩

theorem length_le_exponentSpan {exponent : List Char} {e : Int} (h : Exponent exponent e)
    (rest : List Char) : exponent.length ≤ (exponentSpan (exponent ++ rest)).length := by
  cases h with
  | absent => exact Nat.zero_le _
  | @marked mark numeral _ hmark hnumeral =>
    have hlength := length_le_integerSpan ⟨_, hnumeral⟩ rest
    have hne : integerSpan (numeral ++ rest) ≠ [] := fun heq => by
      rw [heq] at hlength
      exact IsInteger.ne_nil ⟨_, hnumeral⟩ (List.length_eq_zero_iff.mp (Nat.le_zero.mp hlength))
    rw [List.cons_append, exponentSpan_cons, if_pos ⟨hmark, hne⟩, List.length_cons,
      List.length_cons]
    exact Nat.succ_le_succ hlength

/-- An exponent starts neither with a digit nor with a point. -/
theorem Exponent.of_mem_head? {exponent : List Char} {e : Int} (h : Exponent exponent e) :
    ∀ c ∈ exponent.head?, isDigit c = false ∧ c ≠ '.' := by
  cases h with
  | absent => exact nofun
  | @marked mark numeral _ hmark hnumeral =>
    intro c hc
    obtain rfl : mark = c := Option.some.inj hc
    rw [isExponentMark, Bool.or_eq_true, beq_iff_eq, beq_iff_eq] at hmark
    obtain rfl | rfl := hmark <;> decide

/-! ### Decimals -/

/-- The point with its digits, if there is a digit on one side of it. -/
theorem fractionSpan_spec (whole rest : List Char) :
    fractionSpan whole rest = [] ∨ ∃ fraction rest', fractionSpan whole rest = '.' :: fraction ∧
      rest = '.' :: (fraction ++ rest') ∧ AllDigits fraction ∧ (whole ≠ [] ∨ fraction ≠ []) := by
  unfold fractionSpan
  split
  next rest' =>
    dsimp only
    split
    next => exact .inl rfl
    next hdigits =>
      refine .inr ⟨_, rest'.dropWhile isDigit, rfl, ?_, List.all_eq_true.mp List.all_takeWhile, ?_⟩
      · rw [List.takeWhile_append_dropWhile]
      · rw [Bool.and_eq_true, List.isEmpty_iff, List.isEmpty_iff] at hdigits
        exact not_and_or.mp hdigits
  next => exact .inl rfl

/-- The span of a decimal is one, if it is not empty, and the text starts with it. -/
theorem decimalSpan_spec (cs : List Char) :
    decimalSpan cs <+: cs ∧ (decimalSpan cs ≠ [] → IsDecimal (decimalSpan cs)) := by
  obtain ⟨sign, whole, rest, htake, hsign, hrun, rfl⟩ := exists_takeSignedDigits cs
  rw [decimalSpan, htake]
  dsimp only
  obtain hfraction | ⟨fraction, rest', hfraction, rfl, hdigits, hne⟩ := fractionSpan_spec whole rest
  · rw [hfraction, List.isEmpty_nil, Bool.and_true, List.append_nil, List.length_nil, List.drop_zero,
      List.append_assoc]
    split
    next => exact ⟨List.nil_prefix, fun h => absurd rfl h⟩
    next hwhole =>
      obtain ⟨hstart, e, he⟩ := exponentSpan_spec rest
      refine ⟨List.prefix_append_right_inj _ |>.mpr (List.prefix_append_right_inj _ |>.mpr hstart),
        fun _ => ⟨_, _, .intro hsign (.whole hrun.isDigit fun h => hwhole ?_) he⟩⟩
      exact List.isEmpty_iff.mpr h
  · have hdrop : ('.' :: (fraction ++ rest')).drop ('.' :: fraction).length = rest' := by
      rw [← List.cons_append, List.drop_left]
    rw [hfraction, List.isEmpty_cons, Bool.and_false, if_neg Bool.false_ne_true, hdrop,
      List.append_assoc, List.append_assoc]
    obtain ⟨hstart, e, he⟩ := exponentSpan_spec rest'
    refine ⟨List.prefix_append_right_inj _ |>.mpr (List.prefix_append_right_inj _ |>.mpr
      ((List.prefix_cons_inj '.').mpr (List.prefix_append_right_inj _ |>.mpr hstart))), fun _ => ?_⟩
    rw [← List.append_assoc whole]
    cases whole with
    | nil =>
      exact ⟨_, _, .intro hsign (.fraction hdigits (hne.resolve_left fun h => h rfl)) he⟩
    | cons d whole =>
      exact ⟨_, _, .intro hsign (.point hrun.isDigit (List.cons_ne_nil d whole) hdigits) he⟩

/-- Digits that are followed by something else, or by nothing, are split off together. -/
theorem takeWhile_isDigit_append {ds rest : List Char} (hds : AllDigits ds)
    (hrest : ∀ c ∈ rest.head?, isDigit c = false) :
    (ds ++ rest).takeWhile isDigit = ds ∧ (ds ++ rest).dropWhile isDigit = rest :=
  ⟨IsRun.takeWhile_eq ⟨hds, hrest⟩, IsRun.dropWhile_eq ⟨hds, hrest⟩⟩

/-- A point is found with all its digits. -/
theorem fractionSpan_point {whole fraction rest : List Char} (hfraction : AllDigits fraction)
    (hne : whole ≠ [] ∨ fraction ≠ []) :
    fractionSpan whole ('.' :: (fraction ++ rest))
      = '.' :: (fraction ++ rest.takeWhile isDigit) := by
  rw [fractionSpan, List.takeWhile_append_of_pos hfraction, if_neg]
  rw [Bool.and_eq_true, List.isEmpty_iff, List.isEmpty_iff, List.append_eq_nil_iff]
  exact fun h => hne.elim (fun hwhole => hwhole h.1) fun hfraction => hfraction h.2.1

theorem fractionSpan_of_head?_ne {rest : List Char} (h : ∀ c ∈ rest.head?, c ≠ '.')
    (whole : List Char) : fractionSpan whole rest = [] := by
  unfold fractionSpan
  split
  next => exact absurd rfl (h '.' rfl)
  next => rfl

/-- The parts of the span of a decimal. -/
theorem decimalSpan_sign_append {sign body whole rest fraction : List Char} (hsign : IsSign sign)
    (hhead : ∀ c ∈ body.head?, isSign c = false) (hwhole : body.takeWhile isDigit = whole)
    (hrest : body.dropWhile isDigit = rest) (hfraction : fractionSpan whole rest = fraction)
    (hne : whole ≠ [] ∨ fraction ≠ []) :
    decimalSpan (sign ++ body)
      = sign ++ whole ++ fraction ++ exponentSpan (rest.drop fraction.length) := by
  rw [decimalSpan, takeSignedDigits_sign_append hsign hhead, hwhole, hrest]
  dsimp only
  rw [hfraction, if_neg]
  rw [Bool.and_eq_true, List.isEmpty_iff, List.isEmpty_iff]
  exact not_and_or.mpr hne

section

variable {sign exponent : List Char} {e : Int} (hsign : IsSign sign)
  (hexponent : Exponent exponent e)

include hsign hexponent

/-- The span reaches to the end of a decimal without a point. -/
theorem length_le_decimalSpan_whole {whole : List Char} (hwhole : AllDigits whole)
    (hne : whole ≠ []) (rest : List Char) :
    (sign ++ (whole ++ exponent)).length
      ≤ (decimalSpan (sign ++ (whole ++ (exponent ++ rest)))).length := by
  have hhead := isSign_of_mem_head?_append hwhole hne (exponent ++ rest)
  have hlength := length_le_exponentSpan hexponent rest
  have hnext := hexponent.of_mem_head?
  cases exponent with
  | nil =>
    -- the digits may go on
    have hdigits : (whole ++ rest).takeWhile isDigit = whole ++ rest.takeWhile isDigit :=
      List.takeWhile_append_of_pos hwhole
    have hne' : whole ++ rest.takeWhile isDigit ≠ [] := fun h => hne (List.append_eq_nil_iff.mp h).1
    rw [List.nil_append] at hhead ⊢
    rw [decimalSpan_sign_append hsign hhead hdigits rfl rfl (.inl hne')]
    simp only [List.length_append, List.length_nil]
    omega
  | cons mark numeral =>
    obtain ⟨hdigit, hpoint⟩ := hnext mark rfl
    have hhead' : ∀ c ∈ (mark :: numeral ++ rest).head?, isDigit c = false ∧ c ≠ '.' := by
      rintro c ⟨⟩
      exact ⟨hdigit, hpoint⟩
    obtain ⟨htake, hdrop⟩ := takeWhile_isDigit_append hwhole fun c hc => (hhead' c hc).1
    rw [decimalSpan_sign_append hsign hhead htake hdrop
      (fractionSpan_of_head?_ne (fun c hc => (hhead' c hc).2) whole) (.inl hne), List.length_nil,
      List.drop_zero]
    simp only [List.length_append, List.length_nil] at hlength ⊢
    omega

/-- The span reaches to the end of a decimal with a point. -/
theorem length_le_decimalSpan_point {whole fraction : List Char} (hwhole : AllDigits whole)
    (hfraction : AllDigits fraction) (hne : whole ≠ [] ∨ fraction ≠ []) (rest : List Char) :
    (sign ++ (whole ++ '.' :: fraction ++ exponent)).length
      ≤ (decimalSpan (sign ++ (whole ++ '.' :: (fraction ++ (exponent ++ rest))))).length := by
  have hlength := length_le_exponentSpan hexponent rest
  have hnext := hexponent.of_mem_head?
  have hhead : ∀ c ∈ (whole ++ '.' :: (fraction ++ (exponent ++ rest))).head?,
      isSign c = false := by
    cases whole with
    | nil => rintro c ⟨⟩; rfl
    | cons d whole => exact isSign_of_mem_head?_append hwhole (List.cons_ne_nil d whole) _
  have hpoint : ∀ c ∈ ('.' :: (fraction ++ (exponent ++ rest))).head?, isDigit c = false := by
    rintro c ⟨⟩
    rfl
  obtain ⟨htake, hdrop⟩ := takeWhile_isDigit_append hwhole hpoint
  rw [decimalSpan_sign_append hsign hhead htake hdrop (fractionSpan_point hfraction hne)
    (.inr (List.cons_ne_nil _ _))]
  cases exponent with
  | nil =>
    simp only [List.length_append, List.length_cons, List.length_nil]
    omega
  | cons mark numeral =>
    obtain ⟨hdigit, -⟩ := hnext mark rfl
    have hstop : (mark :: numeral ++ rest).takeWhile isDigit = [] := by
      rw [List.cons_append, List.takeWhile_cons, hdigit]
      rfl
    rw [hstop, List.append_nil, List.length_cons, List.drop_succ_cons, List.drop_left]
    simp only [List.length_append, List.length_cons] at hlength ⊢
    omega

end

/-- The span is as long as any decimal that the text starts with. -/
theorem length_le_decimalSpan {numeral : List Char} (h : IsDecimal numeral) (rest : List Char) :
    numeral.length ≤ (decimalSpan (numeral ++ rest)).length := by
  obtain ⟨negative, size, hsign, hmantissa, hexponent⟩ := h
  cases hmantissa with
  | whole hwhole hne =>
    rw [List.append_assoc, List.append_assoc]
    exact length_le_decimalSpan_whole hsign hexponent hwhole hne rest
  | point hwhole hne hfraction =>
    have hpoint := length_le_decimalSpan_point hsign hexponent hwhole hfraction (.inl hne) rest
    simpa only [List.append_assoc, List.cons_append] using hpoint
  | fraction hfraction hne =>
    have hnone : AllDigits [] := nofun
    have hpoint := length_le_decimalSpan_point hsign hexponent hnone hfraction (.inr hne) rest
    simpa only [List.append_assoc, List.cons_append, List.nil_append] using hpoint

/-! ### Longest prefixes -/

/-- **A span that finds what there is, and all of it**, is the longest prefix, or empty if there is
none. -/
theorem isLongestPrefix_of_span {P : List Char → Prop} {span : List Char → List Char}
    (hspan : ∀ cs, span cs <+: cs ∧ (span cs ≠ [] → P (span cs))) (hnil : ¬ P [])
    (hlength : ∀ p, P p → ∀ rest, p.length ≤ (span (p ++ rest)).length) (text : List Char) :
    (span text ≠ [] → IsLongestPrefix P (span text) text) ∧
      (span text = [] ↔ ∀ p, p <+: text → ¬ P p) := by
  have hlongest : ∀ p, P p → p <+: text → p.length ≤ (span text).length := by
    rintro p hp ⟨rest, rfl⟩
    exact hlength p hp rest
  refine ⟨fun hne => ⟨(hspan text).2 hne, (hspan text).1, hlongest⟩, fun hempty p hstart hp => ?_,
    fun hnone => ?_⟩
  · have hle := hlongest p hp hstart
    rw [hempty, List.length_nil, Nat.le_zero, List.length_eq_zero_iff] at hle
    exact hnil (hle ▸ hp)
  · by_contra hne
    exact hnone _ (hspan text).1 ((hspan text).2 hne)

/-- A mantissa is no empty text. -/
theorem IsDecimal.ne_nil {numeral : List Char} (h : IsDecimal numeral) : numeral ≠ [] := by
  obtain ⟨negative, size, -, hmantissa, -⟩ := h
  intro heq
  obtain ⟨-, hrest⟩ := List.append_eq_nil_iff.mp heq
  obtain ⟨hnil, -⟩ := List.append_eq_nil_iff.mp hrest
  cases hmantissa with
  | whole _ hne => exact hne hnil
  | point => exact absurd hnil (by simp)
  | fraction => exact absurd hnil (by simp)

/-- **The span of a decimal** is the longest one that a text starts with. -/
theorem isLongestPrefix_decimalSpan (text : List Char) :
    (decimalSpan text ≠ [] → IsLongestPrefix IsDecimal (decimalSpan text) text) ∧
      (decimalSpan text = [] ↔ ∀ p, p <+: text → ¬ IsDecimal p) :=
  isLongestPrefix_of_span decimalSpan_spec (fun h => h.ne_nil rfl)
    (fun _ h rest => length_le_decimalSpan h rest) text

/-- **The span of an integer** is the longest one that a text starts with. -/
theorem isLongestPrefix_integerSpan (text : List Char) :
    (integerSpan text ≠ [] → IsLongestPrefix IsInteger (integerSpan text) text) ∧
      (integerSpan text = [] ↔ ∀ p, p <+: text → ¬ IsInteger p) :=
  isLongestPrefix_of_span integerSpan_spec (fun h => h.ne_nil rfl)
    (fun _ h rest => length_le_integerSpan h rest) text

/-! ### Reading numerals -/

theorem IntegerNumeral.integer?_eq {numeral : List Char} {n : Int} (h : IntegerNumeral numeral n) :
    integer? numeral = some n := by
  obtain ⟨hsign, hne, hdigits⟩ := h
  rename_i sign digits
  have halone : IsRun digits [] := ⟨hdigits, nofun⟩
  have hempty : digits.isEmpty = false := List.isEmpty_eq_false_iff.mpr hne
  have htake := takeSignedDigits_append hsign halone hne
  rw [List.append_nil] at htake
  rw [integer?, htake]
  dsimp only
  rw [hempty, digitsValue_eq, signedValue]
  rfl

theorem Exponent.exponentOf?_eq {exponent : List Char} {e : Int} (h : Exponent exponent e) :
    Decimal.exponentOf? exponent = some e := by
  cases h with
  | absent => rfl
  | marked hmark hnumeral => rw [Decimal.exponentOf?, if_pos hmark, hnumeral.integer?_eq]

/-- Digits on both sides of a point, as one number of units of the last digit. -/
theorem digitsValue_append (whole fraction : List Char) :
    (digitsValue (whole ++ fraction) : Rat)
      = (digitsNumber whole + digitsNumber fraction / 10 ^ fraction.length)
          * 10 ^ fraction.length := by
  have hten : (10 : Rat) ^ fraction.length ≠ 0 := pow_ne_zero _ (by norm_num)
  have hvalue : digitsValue (whole ++ fraction)
      = 10 ^ fraction.length * digitsNumber whole + digitsNumber fraction := by
    rw [digitsValue_eq, Nat.ofDigitChars_append, Nat.ofDigitChars_eq_ofDigitChars_zero]
    rfl
  rw [hvalue, add_mul, div_mul_cancel₀ _ hten]
  push_cast
  ring

section

variable {sign exponent : List Char} {e : Int} (hsign : IsSign sign)
  (hexponent : Exponent exponent e)

include hsign hexponent

theorem ofChars?_whole {whole : List Char} (hwhole : AllDigits whole) (hne : whole ≠ []) :
    Decimal.ofChars? (sign ++ (whole ++ exponent))
      = some ⟨sign == ['-'], digitsValue whole, e⟩ := by
  have hread := hexponent.exponentOf?_eq
  have hnext := hexponent.of_mem_head?
  obtain ⟨htake, hdrop⟩ := takeWhile_isDigit_append hwhole fun c hc => (hnext c hc).1
  rw [Decimal.ofChars?, takeSignedDigits_sign_append hsign
    (isSign_of_mem_head?_append hwhole hne exponent), htake, hdrop]
  dsimp only
  split
  next => exact absurd rfl (hnext '.' rfl).2
  next =>
    have hempty : whole.isEmpty = false := List.isEmpty_eq_false_iff.mpr hne
    dsimp only
    rw [hempty, hread, List.append_nil]
    simp

theorem ofChars?_point {whole fraction : List Char} (hwhole : AllDigits whole)
    (hfraction : AllDigits fraction) (hne : whole ≠ [] ∨ fraction ≠ []) :
    Decimal.ofChars? (sign ++ (whole ++ '.' :: (fraction ++ exponent)))
      = some ⟨sign == ['-'], digitsValue (whole ++ fraction), e - fraction.length⟩ := by
  have hread := hexponent.exponentOf?_eq
  have hhead : ∀ c ∈ (whole ++ '.' :: (fraction ++ exponent)).head?, isSign c = false := by
    cases whole with
    | nil => rintro c ⟨⟩; rfl
    | cons d whole => exact isSign_of_mem_head?_append hwhole (List.cons_ne_nil d whole) _
  have hpoint : ∀ c ∈ ('.' :: (fraction ++ exponent)).head?, isDigit c = false := by
    rintro c ⟨⟩
    rfl
  obtain ⟨htake, hdrop⟩ := takeWhile_isDigit_append hwhole hpoint
  obtain ⟨htake', hdrop'⟩ := takeWhile_isDigit_append hfraction fun c hc =>
    (hexponent.of_mem_head? c hc).1
  rw [Decimal.ofChars?, takeSignedDigits_sign_append hsign hhead, htake, hdrop]
  change (if (whole.isEmpty && ((fraction ++ exponent).takeWhile isDigit).isEmpty) = true then none
    else do
      let e ← Decimal.exponentOf? ((fraction ++ exponent).dropWhile isDigit)
      return Decimal.mk (sign == ['-'])
        (digitsValue (whole ++ (fraction ++ exponent).takeWhile isDigit))
        (e - ((fraction ++ exponent).takeWhile isDigit).length)) = _
  rw [htake', hdrop', if_neg, hread]
  · rfl
  · rw [Bool.and_eq_true, List.isEmpty_iff, List.isEmpty_iff]
    exact not_and_or.mpr hne

end

/-- **The reader takes every decimal**, at its value. -/
theorem DecimalNumeral.exists_ofChars? {numeral : List Char} {negative : Bool} {size : Rat}
    (h : DecimalNumeral numeral negative size) : ∃ d, Decimal.ofChars? numeral = some d ∧
      d.negative = negative ∧ (d.mantissa : Rat) * 10 ^ d.exponent = size := by
  have hten : (10 : Rat) ≠ 0 := by norm_num
  -- the digits behind the point are as many units as the exponent is lowered by
  have hvalue (whole fraction : List Char) (e : Int) :
      (digitsValue (whole ++ fraction) : Rat) * 10 ^ (e - fraction.length)
        = (digitsNumber whole + digitsNumber fraction / 10 ^ fraction.length) * 10 ^ e := by
    rw [digitsValue_append, mul_assoc, ← zpow_natCast, ← zpow_add₀ hten]
    congr 2
    omega
  obtain ⟨hsign, hmantissa, hexponent⟩ := h
  cases hmantissa with
  | whole hwhole hne =>
    refine ⟨_, ofChars?_whole hsign hexponent hwhole hne, rfl, ?_⟩
    rw [digitsValue_eq]
    rfl
  | point hwhole hne hfraction =>
    rw [List.append_assoc, List.cons_append]
    exact ⟨_, ofChars?_point hsign hexponent hwhole hfraction (.inl hne), rfl, hvalue ..⟩
  | fraction hfraction hne =>
    have hnone : AllDigits [] := nofun
    refine ⟨_, ofChars?_point hsign hexponent hnone hfraction (.inr hne), rfl, ?_⟩
    have hzero : digitsNumber [] = 0 := rfl
    refine (hvalue [] _ _).trans ?_
    rw [hzero, Nat.cast_zero, zero_add]

end SceneCanvas.Text
