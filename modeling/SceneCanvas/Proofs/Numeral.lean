import SceneCanvas.Text.Numeral
import Mathlib.Data.Nat.Notation

/-!
# Integer numerals

What it means for a text to start with an integer, said without reading it: some white space, a
sign or none, at least one digit, and then anything but a digit (`Text.StartsWithInteger`). The
lenient reader finds that integer if it fits a word, and no other one
(`Text.lenientInt?_eq_some_iff`).
-/

namespace SceneCanvas.Text

/-! ### Digits -/

theorem digitsValue_eq (ds : List Char) : digitsValue ds = Nat.ofDigitChars 10 ds 0 :=
  Nat.ofDigitChars_eq_foldl.symm

theorem isDigit_iff {c : Char} : isDigit c = true ↔ 48 ≤ c.toNat ∧ c.toNat ≤ 57 := by
  rw [isDigit, Bool.and_eq_true, decide_eq_true_eq, decide_eq_true_eq, Char.le_def, Char.le_def,
    UInt32.le_iff_toNat_le, UInt32.le_iff_toNat_le]
  rfl

theorem isDigit_of_mem_toDigits {n : Nat} {d : Char} (h : d ∈ Nat.toDigits 10 n) :
    isDigit d = true := by
  have hdigit := Nat.isDigit_of_mem_toDigits (by decide) (by decide) h
  rw [Char.isDigit, Bool.and_eq_true, decide_eq_true_eq, decide_eq_true_eq] at hdigit
  exact isDigit_iff.mpr hdigit

theorem isBlank_of_isDigit {c : Char} (h : isDigit c = true) : isBlank c = false := by
  obtain ⟨hlow, hhigh⟩ := isDigit_iff.mp h
  rw [Bool.eq_false_iff]
  intro hblank
  simp only [isBlank, Bool.or_eq_true, Bool.and_eq_true, decide_eq_true_eq, beq_iff_eq] at hblank
  omega

theorem isSign_of_isDigit {c : Char} (h : isDigit c = true) : isSign c = false := by
  rw [Bool.eq_false_iff]
  intro hsign
  simp only [isSign, Bool.or_eq_true, beq_iff_eq] at hsign
  obtain rfl | rfl := hsign <;> exact absurd h (by decide)

/-! ### Signed digits -/

/-- A sign, or none. -/
inductive IsSign : List Char → Prop where
  | none : IsSign []
  | plus : IsSign ['+']
  | minus : IsSign ['-']

/-- The integer with this sign and these digits. -/
def signedValue (sign digits : List Char) : Int :=
  if sign == ['-'] then -(Nat.ofDigitChars 10 digits 0 : Int) else Nat.ofDigitChars 10 digits 0

/-- A stretch of digits, and what follows it. -/
structure IsRun (digits rest : List Char) : Prop where
  isDigit : ∀ d ∈ digits, isDigit d = true
  ends : ∀ c ∈ rest.head?, Text.isDigit c = false

theorem IsRun.takeWhile_eq {digits rest : List Char} (h : IsRun digits rest) :
    (digits ++ rest).takeWhile Text.isDigit = digits := by
  have hrest : rest.takeWhile Text.isDigit = [] := by
    cases rest with
    | nil => rfl
    | cons c rest => rw [List.takeWhile_cons, h.ends c rfl]; rfl
  rw [List.takeWhile_append_of_pos h.isDigit, hrest, List.append_nil]

theorem IsRun.dropWhile_eq {digits rest : List Char} (h : IsRun digits rest) :
    (digits ++ rest).dropWhile Text.isDigit = rest := by
  rw [List.dropWhile_append_of_pos h.isDigit]
  cases rest with
  | nil => rfl
  | cons c rest => rw [List.dropWhile_cons, h.ends c rfl]; rfl

theorem isRun_takeWhile (cs : List Char) :
    IsRun (cs.takeWhile Text.isDigit) (cs.dropWhile Text.isDigit) where
  isDigit := List.all_eq_true.mp List.all_takeWhile
  ends c hc := by
    have hhead := List.head?_dropWhile_not Text.isDigit cs
    rw [Option.mem_def.mp hc] at hhead
    exact hhead

/-- A sign and the digits behind it are split off. -/
theorem takeSignedDigits_append {sign digits rest : List Char} (hsign : IsSign sign)
    (hdigits : IsRun digits rest) (hne : digits ≠ []) :
    takeSignedDigits (sign ++ (digits ++ rest)) = (sign, digits, rest) := by
  have htake : takeSign (sign ++ (digits ++ rest)) = (sign, digits ++ rest) := by
    cases hsign with
    | none =>
      obtain ⟨d, ds, rfl⟩ := List.exists_cons_of_ne_nil hne
      have hd := isSign_of_isDigit (hdigits.isDigit d List.mem_cons_self)
      rw [List.nil_append, List.cons_append, takeSign, hd]
      rfl
    | plus => rfl
    | minus => rfl
  rw [takeSignedDigits, htake]
  dsimp only
  rw [hdigits.takeWhile_eq, hdigits.dropWhile_eq]

/-- What is split off is a sign and digits, and nothing is lost. -/
theorem exists_takeSignedDigits (cs : List Char) : ∃ sign digits rest,
    takeSignedDigits cs = (sign, digits, rest) ∧ IsSign sign ∧ IsRun digits rest ∧
      cs = sign ++ (digits ++ rest) := by
  have htake : IsSign (takeSign cs).1 ∧ cs = (takeSign cs).1 ++ (takeSign cs).2 := by
    cases cs with
    | nil => exact ⟨.none, rfl⟩
    | cons c rest =>
      rw [takeSign]
      split
      next hsign =>
        rw [isSign, Bool.or_eq_true, beq_iff_eq, beq_iff_eq] at hsign
        obtain rfl | rfl := hsign
        · exact ⟨.plus, rfl⟩
        · exact ⟨.minus, rfl⟩
      next => exact ⟨.none, rfl⟩
  refine ⟨_, _, _, rfl, htake.1, isRun_takeWhile _, ?_⟩
  rw [List.takeWhile_append_dropWhile]
  exact htake.2

/-- A text that is an integer, and nothing else. -/
inductive IntegerNumeral : List Char → Int → Prop where
  | intro {sign digits : List Char} (hsign : IsSign sign) (hne : digits ≠ [])
      (hdigits : ∀ d ∈ digits, isDigit d = true) :
      IntegerNumeral (sign ++ digits) (signedValue sign digits)

/-! ### Texts that start with an integer -/

/-- A text starts with an integer, behind white space and before anything else. -/
inductive StartsWithInteger : List Char → Int → Prop where
  | intro {blanks sign digits rest : List Char} (hblanks : allBlank blanks = true)
      (hsign : IsSign sign) (hdigits : IsRun digits rest) (hne : digits ≠ []) :
      StartsWithInteger (blanks ++ (sign ++ (digits ++ rest))) (signedValue sign digits)

/-- Such a text starts with the integer that it is. -/
theorem IntegerNumeral.startsWith {numeral : List Char} {n : Int} (h : IntegerNumeral numeral n) :
    StartsWithInteger numeral n := by
  obtain @⟨sign, digits, hsign, hne, hdigits⟩ := h
  have hblanks : allBlank [] = true := rfl
  have hrun : IsRun digits [] := ⟨hdigits, nofun⟩
  have hstarts := StartsWithInteger.intro hblanks hsign hrun hne
  rwa [List.nil_append, List.append_nil] at hstarts

/-- Neither a sign nor a digit is white space. -/
theorem IntegerNumeral.isBlank_eq_false {numeral : List Char} {n : Int}
    (h : IntegerNumeral numeral n) : ∀ c ∈ numeral, isBlank c = false := by
  obtain ⟨hsign, -, hdigits⟩ := h
  refine List.forall_mem_append.mpr ⟨?_, fun d hd => isBlank_of_isDigit (hdigits d hd)⟩
  cases hsign with
  | none => exact nofun
  | plus => exact List.forall_mem_singleton.mpr rfl
  | minus => exact List.forall_mem_singleton.mpr rfl

/-- The white space before a sign and digits is all that is trimmed. -/
theorem trimStart_signed {blanks sign digits rest : List Char} (hblanks : allBlank blanks = true)
    (hsign : IsSign sign) (hdigits : IsRun digits rest) (hne : digits ≠ []) :
    trimStart (blanks ++ (sign ++ (digits ++ rest))) = sign ++ (digits ++ rest) := by
  rw [trimStart, List.dropWhile_append_of_pos (List.all_eq_true.mp hblanks)]
  cases hsign with
  | none =>
    obtain ⟨d, ds, rfl⟩ := List.exists_cons_of_ne_nil hne
    have hd := isBlank_of_isDigit (hdigits.isDigit d List.mem_cons_self)
    rw [List.nil_append, List.cons_append, List.dropWhile_cons, hd]
    rfl
  | plus => rfl
  | minus => rfl

/-- The numeral is cut off before it is read. -/
theorem integer?_integerSpan {sign digits rest : List Char} (hsign : IsSign sign)
    (hdigits : IsRun digits rest) (hne : digits ≠ []) :
    integer? (integerSpan (sign ++ (digits ++ rest))) = some (signedValue sign digits) := by
  have hempty : digits.isEmpty = false := List.isEmpty_eq_false_iff.mpr hne
  have hspan : integerSpan (sign ++ (digits ++ rest)) = sign ++ (digits ++ []) := by
    rw [integerSpan, takeSignedDigits_append hsign hdigits hne, List.append_nil]
    dsimp only
    rw [hempty]
    rfl
  have halone : IsRun digits [] := ⟨hdigits.isDigit, nofun⟩
  rw [hspan, integer?, takeSignedDigits_append hsign halone hne]
  dsimp only
  rw [hempty, digitsValue_eq, signedValue]
  rfl

/-- **The lenient reader** finds the integer that a text starts with, if it fits a word. -/
theorem lenientInt?_of_startsWith {cs : List Char} {n : Int} (h : StartsWithInteger cs n) :
    lenientInt? cs = if fitsInt64 n then some n else none := by
  obtain ⟨hblanks, hsign, hdigits, hne⟩ := h
  rw [lenientInt?, trimStart_signed hblanks hsign hdigits hne,
    integer?_integerSpan hsign hdigits hne, Option.filter_some]

/-- It finds no other one. -/
theorem startsWith_of_lenientInt?_eq_some {cs : List Char} {n : Int}
    (h : lenientInt? cs = some n) : StartsWithInteger cs n := by
  obtain ⟨sign, digits, rest, htake, hsign, hdigits, hcs⟩ := exists_takeSignedDigits (trimStart cs)
  rw [lenientInt?] at h
  have hread := (Option.filter_eq_some_iff.mp h).1
  -- without digits there would be nothing to read
  have hne : digits ≠ [] := by
    rintro rfl
    rw [integerSpan, htake] at hread
    cases hread
  rw [hcs, integer?_integerSpan hsign hdigits hne] at hread
  obtain rfl := Option.some.inj hread
  rw [← List.takeWhile_append_dropWhile (p := isBlank) (l := cs), ← trimStart, hcs]
  exact .intro List.all_takeWhile hsign hdigits hne

end SceneCanvas.Text
