import SceneCanvas.Proofs.Numeral
import SceneCanvas.Proofs.Quotation

/-!
# The deviation of a blur

The pixels of a blur are an option of its line, read leniently: the value is an integer behind white
space and before anything else. What fits a word of 64 bits is held to `0, …, maxBlur`, so a larger
request is a larger blur up to the largest one (`Script.Directive.held_mono`). What does not fit is
taken for no number at all, and gives the default: the deviation falls back from the largest one to
a small one at the end of the word.

`Script.Directive.requested_deviation` says both of every numeral, and names the lines that take the
default.
-/

namespace SceneCanvas.Script

open Text

/-! ### A line with one option -/

/-- A command and one option are one argument and one option. -/
theorem Line.ofChars_option {command key value : List Char} (hcommand : IsWord command)
    (hkey : IsWord key) (hvalue : ∀ c ∈ value, isBlank c = false) :
    Line.ofChars (command ++ ' ' :: (key ++ ':' :: value))
      = ⟨[String.ofList command], [(String.ofList key, String.ofList value)]⟩ := by
  have hnone : allBlank [] = true := rfl
  have hspace : allBlank [' '] = true := rfl
  have hnext : ∀ c ∈ (' ' :: (key ++ ':' :: value)).head?, isBlank c = true := by
    rintro c ⟨⟩
    rfl
  have hend : ∀ c ∈ ([] : List Char).head?, isBlank c = true := nofun
  have htail : ∀ c ∈ ':' :: value, isBlank c = false := List.forall_mem_cons.mpr ⟨rfl, hvalue⟩
  have hfirst := hcommand.reads hnext
  have hsecond := hkey.reads_append htail hend
  rw [List.append_nil] at hsecond
  have hrest : Decomposes ([' '] ++ (key ++ ':' :: value)) _ [] :=
    .cut hspace hsecond (.gap hnone)
  have htokens : tokens (command ++ ' ' :: (key ++ ':' :: value))
      = [command, key ++ ':' :: value] :=
    (Decomposes.cut hnone hfirst hrest).tokens_eq
  have hargument : splitOption command = none := splitOption_eq_none_iff.mpr hcommand.notMem_colon
  have hoption : splitOption (key ++ ':' :: value) = some (key, value) :=
    splitOption_eq_some_iff.mpr ⟨rfl, hkey.notMem_colon⟩
  obtain ⟨c, cs, rfl⟩ := List.exists_cons_of_ne_nil hkey.ne_nil
  rw [ofChars, htokens, ofTokens, List.foldl_cons, List.foldl_cons, List.foldl_nil, add, hoption,
    add, hargument]
  rfl

namespace Directive

/-! ### Holding a request to what a blur can do -/

/-- The deviation that a requested number of pixels is held to. -/
def held (n : Int) : UInt32 := (max 0 (min n maxBlur.toNat)).toNat.toUInt32

theorem toNat_held (n : Int) : ((held n).toNat : Int) = min (max n 0) 128 := by
  have hmax : (maxBlur.toNat : Int) = 128 := rfl
  have hsmall : (max 0 (min n 128)).toNat < 2 ^ 32 := by omega
  rw [held, hmax, Nat.toUInt32, UInt32.toNat_ofNat', Nat.mod_eq_of_lt hsmall]
  omega

/-- **A larger request is no smaller blur.** -/
theorem held_mono {n n' : Int} (h : n ≤ n') : held n ≤ held n' := by
  rw [UInt32.le_iff_toNat_le]
  have := toNat_held n
  have := toNat_held n'
  omega

theorem toNat_max_one (pixels : UInt32) : (max pixels 1).toNat = max 1 pixels.toNat := by
  have hmax : max pixels 1 = if pixels ≤ 1 then 1 else pixels := rfl
  rw [hmax, apply_ite UInt32.toNat]
  have hle : pixels ≤ 1 ↔ pixels.toNat ≤ 1 := UInt32.le_iff_toNat_le
  split
  next h => rw [hle] at h; exact (Nat.max_eq_left h).symm
  next h => rw [hle] at h; exact (Nat.max_eq_right (by omega)).symm

/-- **A value that starts with an integer** gives it, held to what a blur can do, if it fits a word;
if it does not, the default. -/
theorem deviation_of_startsWith {line : Line} {value : String} {n : Int}
    (hvalue : line.option? "pixels" = some value) (hn : StartsWithInteger value.toList n)
    (default : UInt32) :
    deviation line default = if fitsInt64 n then held n else default := by
  rw [deviation, hvalue, Option.bind_some, lenientInt?_of_startsWith hn]
  cases fitsInt64 n <;> rfl

/-- **The default** is taken unless the value of the option starts with an integer that fits a
word. -/
theorem deviation_eq_default_iff (line : Line) :
    (∀ default, deviation line default = default) ↔
      ∀ value, line.option? "pixels" = some value →
        ∀ n, StartsWithInteger value.toList n → fitsInt64 n = false := by
  constructor
  · intro h value hvalue n hn
    rw [Bool.eq_false_iff]
    intro hfits
    -- one of two defaults would have to be the requested number
    have hboth (default : UInt32) : held n = default := by
      rw [← h default, deviation_of_startsWith hvalue hn, hfits]
      rfl
    exact absurd ((hboth 0).symm.trans (hboth 1)) (by decide)
  · intro h default
    rw [deviation]
    cases hvalue : line.option? "pixels" with
    | none => rfl
    | some value =>
      rw [Option.bind_some]
      cases hread : lenientInt? value.toList with
      | none => rfl
      | some n =>
        have hn := startsWith_of_lenientInt?_eq_some hread
        rw [lenientInt?_of_startsWith hn, h value hvalue n hn] at hread
        cases hread

/-! ### Lines with a request -/

/-- A command and the option that requests a number of pixels. -/
def requestLine (command : String) (numeral : List Char) : List Char :=
  command.toList ++ ' ' :: ("pixels".toList ++ ':' :: numeral)

section

variable {numeral : List Char} {n : Int} (h : IntegerNumeral numeral n)

include h

/-- Such a line has one option. -/
theorem ofChars_requestLine {command : String} (hcommand : IsWord command.toList) :
    Line.ofChars (requestLine command numeral)
      = ⟨[command], [("pixels", String.ofList numeral)]⟩ := by
  have hkey : IsWord "pixels".toList := by decide
  rw [requestLine, Line.ofChars_option hcommand hkey h.isBlank_eq_false, String.ofList_toList]
  rfl

/-- The deviation that a numeral requests. -/
theorem deviation_request (command : String) (default : UInt32) :
    deviation ⟨[command], [("pixels", String.ofList numeral)]⟩ default
      = if fitsInt64 n then held n else default := by
  have hstarts : StartsWithInteger (String.ofList numeral).toList n := by
    rw [String.toList_ofList]
    exact h.startsWith
  exact deviation_of_startsWith rfl hstarts default

/-- The line of a blur asks for the deviation that its numeral requests. -/
theorem ofLine?_requestLine_blur :
    ofLine? (Line.ofChars (requestLine "BLUR" numeral))
      = some (blur (if fitsInt64 n then held n else 8) []) := by
  have hcommand : IsWord "BLUR".toList := by decide
  rw [← deviation_request h "BLUR", ofChars_requestLine h hcommand]
  rfl

/-- The line of a bloom asks for one pixel at least. -/
theorem ofLine?_requestLine_bloom :
    ofLine? (Line.ofChars (requestLine "BLOOM" numeral))
      = some (bloom (max (if fitsInt64 n then held n else 8) 1) (0.5 : Float).toFloat32) := by
  have hcommand : IsWord "BLOOM".toList := by decide
  rw [← deviation_request h "BLOOM", ofChars_requestLine h hcommand]
  rfl

end

/-- **Requests that fit a word are held to `0, …, 128`, and larger ones are lost.** The line of a
blur with a numeral of a word of 64 bits has that many pixels, held to the range, and the line of a
bloom has one at least, so that a larger request is no smaller blur; a numeral of any other size
gives the default. The default is left to the lines whose option is missing, or does not start with
an integer, or starts with one that does not fit a word. -/
theorem requested_deviation {numeral numeral' : List Char} {n n' : Int}
    (h : IntegerNumeral numeral n) (h' : IntegerNumeral numeral' n') (line : Line) :
    (fitsInt64 n = true → ∃ pixels pixels' : UInt32,
      ofLine? (Line.ofChars (requestLine "BLUR" numeral)) = some (blur pixels []) ∧
      ofLine? (Line.ofChars (requestLine "BLOOM" numeral))
        = some (bloom pixels' (0.5 : Float).toFloat32) ∧
      (pixels.toNat : Int) = min (max n 0) 128 ∧
      (pixels'.toNat : Int) = max 1 (min (max n 0) 128)) ∧
    (fitsInt64 n = false →
      ofLine? (Line.ofChars (requestLine "BLUR" numeral)) = some (blur 8 []) ∧
      ofLine? (Line.ofChars (requestLine "BLOOM" numeral))
        = some (bloom 8 (0.5 : Float).toFloat32)) ∧
    (∀ pixels pixels', fitsInt64 n = true → fitsInt64 n' = true → n ≤ n' →
      ofLine? (Line.ofChars (requestLine "BLUR" numeral)) = some (blur pixels []) →
      ofLine? (Line.ofChars (requestLine "BLUR" numeral')) = some (blur pixels' []) →
      pixels ≤ pixels') ∧
    ((∀ default, deviation line default = default) ↔
      ∀ value, line.option? "pixels" = some value →
        ∀ n, StartsWithInteger value.toList n → fitsInt64 n = false) := by
  refine ⟨fun hfits => ?fits, fun hfits => ?lost, ?mono, deviation_eq_default_iff line⟩
  case fits =>
    refine ⟨held n, max (held n) 1, ?_, ?_, toNat_held n, ?_⟩
    · rw [ofLine?_requestLine_blur h, if_pos hfits]
    · rw [ofLine?_requestLine_bloom h, if_pos hfits]
    · have := toNat_held n
      rw [toNat_max_one]
      omega
  case lost =>
    rw [ofLine?_requestLine_blur h, ofLine?_requestLine_bloom h, if_neg (hfits ▸ Bool.false_ne_true)]
    exact ⟨rfl, rfl⟩
  case mono =>
    intro pixels pixels' hfits hfits' hle hline hline'
    rw [ofLine?_requestLine_blur h, if_pos hfits] at hline
    rw [ofLine?_requestLine_blur h', if_pos hfits'] at hline'
    obtain ⟨rfl, -⟩ := blur.inj (Option.some.inj hline)
    obtain ⟨rfl, -⟩ := blur.inj (Option.some.inj hline')
    exact held_mono hle

/-- The largest number of a word, behind a plus sign and a zero. -/
theorem requested_deviation_largest :
    ∃ pixels pixels' : UInt32,
      ofLine? (Line.ofChars "BLUR pixels:+09223372036854775807".toList) = some (blur pixels []) ∧
      ofLine? (Line.ofChars "BLOOM pixels:+09223372036854775807".toList)
        = some (bloom pixels' (0.5 : Float).toFloat32) ∧
      (pixels.toNat : Int) = 128 ∧ (pixels'.toNat : Int) = 128 := by
  have h : IntegerNumeral "+09223372036854775807".toList 9223372036854775807 :=
    .intro .plus (by decide : "09223372036854775807".toList ≠ [])
      (List.all_eq_true.mp (by decide))
  have hfits : fitsInt64 9223372036854775807 = true := by decide
  exact (requested_deviation h h ⟨[], []⟩).1 hfits

/-- **The first request that does not fit a word** is no largest blur, but the default. -/
theorem huge_request_not_held :
    ¬ ∀ numeral n, IntegerNumeral numeral n → ∃ pixels : UInt32,
      ofLine? (Line.ofChars (requestLine "BLUR" numeral)) = some (blur pixels []) ∧
        (pixels.toNat : Int) = min (max n 0) 128 := by
  intro hall
  have h : IntegerNumeral "9223372036854775808".toList 9223372036854775808 :=
    .intro .none (by decide : "9223372036854775808".toList ≠ [])
      (List.all_eq_true.mp (by decide))
  obtain ⟨pixels, hline, hpixels⟩ := hall _ _ h
  rw [ofLine?_requestLine_blur h] at hline
  obtain ⟨rfl, -⟩ := blur.inj (Option.some.inj hline)
  exact absurd hpixels (by decide)

end Directive

end SceneCanvas.Script
