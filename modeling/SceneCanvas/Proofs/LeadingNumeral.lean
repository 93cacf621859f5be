import SceneCanvas.Proofs.NumeralGrammar
import SceneCanvas.Proofs.NearestDouble

/-!
# The number that a text starts with

The lenient readers skip white space and read the longest numeral that follows: for a decimal they
give the double nearest to its value, for an integer the integer, and nothing if there is no numeral
or its value does not fit (`Text.leading_numerals_read`). The grammar of numerals is that of
`Text.DecimalNumeral` and `Text.IntegerNumeral`, and the nearest double is that of
`Scalar.IsNearest`.

Nothing else of the text is looked at. Texts that start with the same longest numeral give the same
number, and so does a text with anything put behind it that cannot go on with a numeral
(`Text.canGoOn_of_mem`).
-/

namespace SceneCanvas.Text

open Scalar

/-! ### Decimals -/

section

variable {cs : List Char}

/-- Without a numeral there is no number. -/
theorem lenientFloat?_eq_none (h : ∀ p, p <+: trimStart cs → ¬ IsDecimal p) :
    lenientFloat? cs = none := by
  rw [lenientFloat?, (isLongestPrefix_decimalSpan (trimStart cs)).2.mpr h]
  rfl

/-- The longest decimal is the span that is read. -/
theorem decimalSpan_eq {p : List Char} (hp : IsLongestPrefix IsDecimal p (trimStart cs)) :
    decimalSpan (trimStart cs) = p := by
  obtain ⟨hlongest, hempty⟩ := isLongestPrefix_decimalSpan (trimStart cs)
  exact (hlongest fun h => hempty.mp h p hp.isPrefix hp.holds).unique hp

/-- **The longest decimal is read**, at the double nearest to its value, with its sign. -/
theorem lenientFloat?_of_isLongestPrefix {p : List Char} {negative : Bool} {size : Rat}
    (hp : IsLongestPrefix IsDecimal p (trimStart cs)) (h : DecimalNumeral p negative size) :
    (size < overflow → ∃ x, lenientFloat? cs = some x ∧ x.isFinite = true ∧
      IsNearest (if negative then -size else size) x ∧
      (2 ^ 63 ≤ x.toBits.toNat ↔ negative = true)) ∧
    (overflow ≤ size → lenientFloat? cs = none) := by
  obtain ⟨d, hread, rfl, hsize⟩ := h.exists_ofChars?
  have hrounds := roundsTo_decimal d
  have hnonneg : 0 ≤ size := hsize ▸ mul_nonneg d.mantissa.cast_nonneg (by positivity)
  rw [hsize] at hrounds
  rw [lenientFloat?, decimalSpan_eq hp, hread, Option.map_some]
  constructor
  · intro hfits
    obtain ⟨mantissa, exponent, -, hparts, hsign, -⟩ := hrounds.toBits hfits
    have hnearest := hrounds.isNearest hnonneg hfits
    refine ⟨d.toFloat, ?_, hparts.isFinite, ?_, ?_⟩
    · rw [Option.filter_some, hparts.isFinite]
      rfl
    · cases hnegative : d.negative <;> rw [hnegative] at hnearest <;>
        simpa [unit, Float.Model.UnpackedFloat.Sign.apply] using hnearest
    · rw [hsign]
      cases d.negative <;> simp
  · intro hlarge
    rw [Option.filter_some, hrounds.isFinite_eq_false hlarge]
    rfl

end

/-! ### Integers -/

/-- The integers that fit 64 bits. -/
theorem fitsInt64_iff {n : Int} : fitsInt64 n = true ↔ -2 ^ 63 ≤ n ∧ n < 2 ^ 63 := by
  have hword : (Word.negative64 : Int) = 2 ^ 63 := rfl
  rw [fitsInt64, Bool.and_eq_true, decide_eq_true_eq, decide_eq_true_eq, hword]

/-- **The longest integer is read**, if it fits 64 bits. -/
theorem lenientInt?_eq_some_iff {cs : List Char} {n : Int} :
    lenientInt? cs = some n ↔ ∃ p, IsLongestPrefix IsInteger p (trimStart cs) ∧
      IntegerNumeral p n ∧ -2 ^ 63 ≤ n ∧ n < 2 ^ 63 := by
  obtain ⟨hlongest, hempty⟩ := isLongestPrefix_integerSpan (trimStart cs)
  rw [lenientInt?, Option.filter_eq_some_iff, fitsInt64_iff]
  constructor
  · rintro ⟨hread, hfits⟩
    have hne : integerSpan (trimStart cs) ≠ [] := fun h => by rw [h] at hread; cases hread
    obtain ⟨m, hm⟩ := (hlongest hne).holds
    obtain rfl := Option.some.inj (hm.integer?_eq.symm.trans hread)
    exact ⟨_, hlongest hne, hm, hfits⟩
  · rintro ⟨p, hp, hn, hfits⟩
    have hspan := (hlongest fun h => hempty.mp h p hp.isPrefix hp.holds).unique hp
    exact ⟨hspan ▸ hn.integer?_eq, hfits⟩

/-! ### What stands behind a numeral -/

/-- A span sees only the numerals that a text starts with. -/
theorem span_eq_of_prefixes {P : List Char → Prop} {span : List Char → List Char}
    (hspan : ∀ cs, (span cs ≠ [] → IsLongestPrefix P (span cs) cs) ∧
      (span cs = [] ↔ ∀ p, p <+: cs → ¬ P p)) {cs cs' : List Char}
    (h : ∀ p, P p → (p <+: cs' ↔ p <+: cs)) : span cs' = span cs := by
  by_cases hempty : span cs = []
  · rw [hempty, (hspan cs').2]
    exact fun p hstart hp => (hspan cs).2.mp hempty p ((h p hp).mp hstart) hp
  · have hlongest := (hspan cs).1 hempty
    have hempty' : span cs' ≠ [] := fun heq =>
      (hspan cs').2.mp heq _ ((h _ hlongest.holds).mpr hlongest.isPrefix) hlongest.holds
    refine IsLongestPrefix.unique ((hspan cs').1 hempty') ⟨hlongest.holds,
      (h _ hlongest.holds).mpr hlongest.isPrefix, fun q hq hstart => ?_⟩
    exact hlongest.length_le q hq ((h q hq).mp hstart)

/-- What is trimmed from a text, is trimmed from it with anything behind it. -/
theorem trimStart_prefix_append (cs more : List Char) :
    trimStart cs <+: trimStart (cs ++ more) := by
  rw [trimStart, trimStart, List.dropWhile_append]
  split
  next hnil =>
    rw [List.isEmpty_iff.mp hnil]
    exact List.nil_prefix
  next => exact List.prefix_append _ _

section

variable {cs more : List Char}

/-- **Text that does not go on with a decimal makes no difference.** -/
theorem lenientFloat?_append
    (h : ∀ p, IsDecimal p → p <+: trimStart (cs ++ more) → p <+: trimStart cs) :
    lenientFloat? (cs ++ more) = lenientFloat? cs := by
  rw [lenientFloat?, lenientFloat?, span_eq_of_prefixes isLongestPrefix_decimalSpan fun p hp =>
    ⟨h p hp, fun hstart => hstart.trans (trimStart_prefix_append cs more)⟩]

/-- **Text that does not go on with an integer makes no difference.** -/
theorem lenientInt?_append
    (h : ∀ p, IsInteger p → p <+: trimStart (cs ++ more) → p <+: trimStart cs) :
    lenientInt? (cs ++ more) = lenientInt? cs := by
  rw [lenientInt?, lenientInt?, span_eq_of_prefixes isLongestPrefix_integerSpan fun p hp =>
    ⟨h p hp, fun hstart => hstart.trans (trimStart_prefix_append cs more)⟩]

end

/-- A character that can stand in a numeral. -/
def canGoOn (c : Char) : Bool := isDigit c || isSign c || isExponentMark c || c == '.'

/-- An integer is a decimal. -/
theorem IsInteger.isDecimal {numeral : List Char} (h : IsInteger numeral) : IsDecimal numeral := by
  obtain ⟨n, hsign, hne, hdigits⟩ := h
  rename_i sign digits
  rw [← List.append_nil digits]
  exact ⟨_, _, .intro hsign (.whole hdigits hne) .absent⟩

/-- Numerals are written with such characters alone. -/
theorem canGoOn_of_mem {numeral : List Char} (h : IsDecimal numeral) :
    ∀ c ∈ numeral, canGoOn c = true := by
  have hdigits {ds : List Char} (hds : AllDigits ds) : ∀ c ∈ ds, canGoOn c = true := by
    intro c hc
    rw [canGoOn, hds c hc]
    rfl
  have hsigns {sign : List Char} (hsign : IsSign sign) : ∀ c ∈ sign, canGoOn c = true := by
    cases hsign <;> simp [canGoOn, isSign]
  obtain ⟨negative, size, hsign, hmantissa, hexponent⟩ := h
  refine List.forall_mem_append.mpr ⟨hsigns hsign, List.forall_mem_append.mpr ⟨?_, ?_⟩⟩
  · cases hmantissa with
    | whole hwhole hne => exact hdigits hwhole
    | point hwhole hne hfraction =>
      exact List.forall_mem_append.mpr
        ⟨hdigits hwhole, List.forall_mem_cons.mpr ⟨rfl, hdigits hfraction⟩⟩
    | fraction hfraction hne => exact List.forall_mem_cons.mpr ⟨rfl, hdigits hfraction⟩
  · cases hexponent with
    | absent => exact List.forall_mem_nil _
    | @marked mark numeral _ hmark hnumeral =>
      obtain ⟨hsign', hne, hdigits'⟩ := hnumeral
      refine List.forall_mem_cons.mpr ⟨?_, List.forall_mem_append.mpr
        ⟨hsigns hsign', hdigits hdigits'⟩⟩
      rw [canGoOn, hmark, Bool.or_true, Bool.true_or]

/-- Behind a text with something in it, a character that cannot stand in a numeral ends them all. -/
theorem prefix_trimStart_of_not_canGoOn {cs more : List Char} (hcs : allBlank cs = false)
    (hmore : ∀ c ∈ more.head?, canGoOn c = false) {p : List Char} (hp : IsDecimal p)
    (h : p <+: trimStart (cs ++ more)) : p <+: trimStart cs := by
  have htrim : trimStart (cs ++ more) = trimStart cs ++ more := by
    rw [trimStart, trimStart, List.dropWhile_append, if_neg]
    intro hnil
    rw [List.isEmpty_iff, List.dropWhile_eq_nil_iff] at hnil
    exact Bool.eq_false_iff.mp hcs (List.all_eq_true.mpr hnil)
  rw [htrim] at h
  obtain hshort | ⟨rest, rfl⟩ := List.prefix_or_prefix_of_prefix h (List.prefix_append _ more)
  · exact hshort
  · obtain ⟨rest', hrest'⟩ := h
    rw [List.append_assoc, List.append_right_inj] at hrest'
    cases rest with
    | nil => rw [List.append_nil]
    | cons c rest =>
      have hstop := hmore c (by rw [← hrest']; rfl)
      have hgo := canGoOn_of_mem hp c (List.mem_append_right _ List.mem_cons_self)
      rw [hstop] at hgo
      cases hgo

/-- **The readers read the longest numeral that a text starts with, behind white space.** If there
is none, they give nothing. If there is one, the longest one is read whole, and a decimal gives the
nearest double, unless its value is too large for a finite one; an integer gives its value, unless
that does not fit 64 bits. Text that does not go on with a numeral makes no difference, and behind a
text with something in it, text does not if it starts with no character of a numeral. -/
theorem leading_numerals_read :
    (∀ cs, (∀ p, p <+: trimStart cs → ¬ IsDecimal p) → lenientFloat? cs = none) ∧
    (∀ cs, (∃ p, p <+: trimStart cs ∧ IsDecimal p) →
      ∃ p, IsLongestPrefix IsDecimal p (trimStart cs)) ∧
    (∀ cs p, IsLongestPrefix IsDecimal p (trimStart cs) →
      decimalSpan (trimStart cs) = p ∧ (Decimal.ofChars? p).isSome = true ∧
      ∀ negative size, DecimalNumeral p negative size →
        (size < overflow → ∃ x, lenientFloat? cs = some x ∧ x.isFinite = true ∧
          IsNearest (if negative then -size else size) x ∧
          (2 ^ 63 ≤ x.toBits.toNat ↔ negative = true)) ∧
        (overflow ≤ size → lenientFloat? cs = none)) ∧
    (∀ cs n, lenientInt? cs = some n ↔ ∃ p, IsLongestPrefix IsInteger p (trimStart cs) ∧
      IntegerNumeral p n ∧ -2 ^ 63 ≤ n ∧ n < 2 ^ 63) ∧
    (∀ cs more,
      ((∀ p, IsDecimal p → p <+: trimStart (cs ++ more) → p <+: trimStart cs) →
        lenientFloat? (cs ++ more) = lenientFloat? cs) ∧
      ((∀ p, IsInteger p → p <+: trimStart (cs ++ more) → p <+: trimStart cs) →
        lenientInt? (cs ++ more) = lenientInt? cs)) ∧
    ∀ cs more, allBlank cs = false → (∀ c ∈ more.head?, canGoOn c = false) →
      lenientFloat? (cs ++ more) = lenientFloat? cs ∧
        lenientInt? (cs ++ more) = lenientInt? cs := by
  refine ⟨fun cs => lenientFloat?_eq_none, fun cs hsome => ?longest, fun cs p hp =>
    ⟨decimalSpan_eq hp, ?reads, fun negative size => lenientFloat?_of_isLongestPrefix hp⟩,
    fun cs n => lenientInt?_eq_some_iff, fun cs more => ⟨lenientFloat?_append, lenientInt?_append⟩,
    fun cs more hcs hmore => ⟨lenientFloat?_append fun p hp => ?float,
      lenientInt?_append fun p hp => ?int⟩⟩
  case longest =>
    obtain ⟨hlongest, hempty⟩ := isLongestPrefix_decimalSpan (trimStart cs)
    obtain ⟨p, hstart, hp⟩ := hsome
    exact ⟨_, hlongest fun h => hempty.mp h p hstart hp⟩
  case reads =>
    obtain ⟨negative, size, h⟩ := hp.holds
    obtain ⟨d, hread, -⟩ := h.exists_ofChars?
    rw [hread]
    rfl
  case float => exact prefix_trimStart_of_not_canGoOn hcs hmore hp
  case int => exact prefix_trimStart_of_not_canGoOn hcs hmore hp.isDecimal

/-- A negative decimal with a lone point and the beginning of an exponent behind it. -/
theorem leading_numerals_read_half :
    ∃ x, lenientFloat? " -.5e+px".toList = some x ∧ IsNearest (-(5 / 10)) x ∧
      2 ^ 63 ≤ x.toBits.toNat := by
  obtain ⟨-, -, hreads, -⟩ := leading_numerals_read
  have hnumeral : DecimalNumeral "-.5".toList true (5 / 10) := by
    have hfive : AllDigits ['5'] := List.forall_mem_singleton.mpr rfl
    have h := DecimalNumeral.intro .minus (.fraction hfive (List.cons_ne_nil _ _)) .absent
    simpa [digitsNumber, Nat.ofDigitChars] using h
  have hlongest : IsLongestPrefix IsDecimal "-.5".toList (trimStart " -.5e+px".toList) := by
    have hspan : decimalSpan (trimStart " -.5e+px".toList) = "-.5".toList := by decide
    rw [← hspan]
    exact (isLongestPrefix_decimalSpan _).1 (by decide)
  have hsmall : (5 / 10 : Rat) < overflow :=
    lt_of_lt_of_le (by norm_num) ((one_le_pow₀ one_le_two).trans two_pow_le_overflow)
  obtain ⟨x, hx, -, hnearest, hsign⟩ := ((hreads _ _ hlongest).2.2 _ _ hnumeral).1 hsmall
  exact ⟨x, hx, hnearest, hsign.mpr rfl⟩

end SceneCanvas.Text
