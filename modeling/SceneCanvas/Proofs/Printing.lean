import SceneCanvas.Proofs.Spelling
import SceneCanvas.Settings
import Mathlib.Data.List.Forall2

/-!
# Objects written one member a line

What is written as an object, one member a line, is read as the same members. A value is written in
such a way that it can be read off in front of whatever follows it there, which is a comma or a line
break (`Json.Written`). That holds of integers that fit a word, of flags, and of texts whatever
characters are in them. From there on lines are read off one by one.

* `Json.readText_escaped` reads a text between quotes. Escapes are taken back one character at a
  time, and the codes of characters are never halves of a pair.
* `Json.readMember_memberLine` and `Json.readMembers_memberLines` read the lines of an object.
* `Json.parseChecked?_object` is the whole of it.
-/

namespace SceneCanvas.Json

open Text (IsRun isDigit)

/-! ### Texts -/

/-- The two digits of a control character spell its code. -/
private theorem hexUnit?_control : ∀ n < 0x20,
    hexUnit? '0' '0' (Nat.digitChar (n / 16)) (Nat.digitChar (n % 16)) = some n := by
  decide

private theorem unquote?_short {letter c : Char} (h : shortEscape? letter = some c)
    (rest : List Char) : unquote? ('\\' :: letter :: rest)
      = (unquote? rest).map fun read => (c.toNat :: read.1, read.2) := by
  have hletter : letter ≠ 'u' := by
    rintro rfl
    cases h
  rw [unquote?, h]
  · cases unquote? rest <;> rfl
  · intro _ _ _ _ _ hu _
    exact hletter hu

private theorem unquote?_unit {a b c d : Char} {n : Nat} (h : hexUnit? a b c d = some n)
    (rest : List Char) : unquote? ('\\' :: 'u' :: a :: b :: c :: d :: rest)
      = (unquote? rest).map fun read => (n :: read.1, read.2) := by
  rw [unquote?, h]
  cases unquote? rest <;> rfl

private theorem unquote?_plain {c : Char} (hquote : c ≠ '"') (hbackslash : c ≠ '\\')
    (hcontrol : ¬ c.toNat < 0x20) (rest : List Char) : unquote? (c :: rest)
      = (unquote? rest).map fun read => (c.toNat :: read.1, read.2) := by
  have hplain : ¬(decide (c.toNat < 0x20) || decide (c = '\\')) = true := by
    simp [hcontrol, hbackslash]
  rw [unquote?, if_neg hplain]
  · cases unquote? rest <;> rfl
  · exact hquote
  · intro _ _ _ _ _ hu _
    exact hbackslash hu
  · intro _ _ hu _
    exact hbackslash hu

theorem unquote?_escapeChar (c : Char) (rest : List Char) :
    unquote? (escapeChar c ++ rest)
      = (unquote? rest).map fun read => (c.toNat :: read.1, read.2) := by
  unfold escapeChar
  split
  next h => subst h; exact unquote?_short rfl rest
  split
  next h => subst h; exact unquote?_short rfl rest
  split
  next h => subst h; exact unquote?_short rfl rest
  split
  next h => subst h; exact unquote?_short rfl rest
  split
  next h => subst h; exact unquote?_short rfl rest
  split
  next h => subst h; exact unquote?_short rfl rest
  split
  next h => subst h; exact unquote?_short rfl rest
  split
  next hcontrol => exact unquote?_unit (hexUnit?_control c.toNat hcontrol) rest
  next hquote hbackslash _ _ _ _ _ hcontrol => exact unquote?_plain hquote hbackslash hcontrol rest

theorem unquote?_escaped (cs rest : List Char) :
    unquote? (cs.flatMap escapeChar ++ '"' :: rest) = some (cs.map Char.toNat, rest) := by
  induction cs with
  | nil => rfl
  | cons c cs ih =>
    rw [List.flatMap_cons, List.append_assoc, unquote?_escapeChar, ih]
    rfl

/-- The code of a character is no half of a surrogate pair. -/
private theorem not_surrogate (c : Char) :
    isLeading c.toNat = false ∧ isTrailing c.toNat = false := by
  have hvalid : c.toNat < 0xD800 ∨ 0xDFFF < c.toNat ∧ c.toNat < 0x110000 := c.valid
  rw [isLeading, isTrailing, Bool.and_eq_false_iff, Bool.and_eq_false_iff, decide_eq_false_iff_not,
    decide_eq_false_iff_not, decide_eq_false_iff_not, decide_eq_false_iff_not]
  omega

/-- **The codes of characters** are read as these characters. -/
theorem pairUnits_codes (cs : List Char) : pairUnits (cs.map Char.toNat) = some cs := by
  induction cs with
  | nil => rfl
  | cons c cs ih =>
    obtain ⟨hleading, htrailing⟩ := not_surrogate c
    unfold pairUnits
    rw [List.map_cons]
    dsimp only
    rw [hleading, htrailing, ih]
    simp [Char.ofNat_toNat]

/-- **A text between quotes** is read as it is. -/
theorem readText_escaped (text : String) (rest : List Char) :
    readText (text.toList.flatMap escapeChar ++ '"' :: rest) = some (some text, rest) := by
  rw [readText, unquote?_escaped, Option.map_some]
  dsimp only
  rw [pairUnits_codes, Option.map_some, String.ofList_toList]

/-! ### Digits -/

/-- Only zero is spelled with a leading zero. -/
private theorem head?_toDigits_ne {n : Nat} (hn : 0 < n) :
    (Nat.toDigits 10 n).head? ≠ some '0' := by
  induction n using Nat.strongRecOn with
  | _ n ih =>
    by_cases hsmall : n < 10
    · rw [Nat.toDigits_of_lt_base hsmall, List.head?_cons]
      intro hzero
      have hn' := Nat.digitChar_eq_zero.mp (Option.some.inj hzero)
      omega
    · rw [Nat.toDigits_of_base_le (by decide) (by omega),
        List.head?_append_of_ne_nil _ Nat.toDigits_ne_nil]
      exact ih (n / 10) (by omega) (by omega)

private theorem eq_nil_of_toDigits_eq_cons {n : Nat} {ds : List Char}
    (h : Nat.toDigits 10 n = '0' :: ds) : ds = [] := by
  rcases Nat.eq_zero_or_pos n with rfl | hn
  · exact (List.cons.inj h).2.symm
  · exact absurd (h ▸ List.head?_cons) (head?_toDigits_ne hn)

/-- What may follow a value in an object that is written one member a line: a comma, a line break,
or nothing. -/
def Ends (rest : List Char) : Prop := ∀ c ∈ rest.head?, c = ',' ∨ c = '\n'

theorem Ends.head_ne {rest : List Char} (h : Ends rest) {c : Char} (hcomma : c ≠ ',')
    (hbreak : c ≠ '\n') : c ∉ rest.head? := by
  intro hc
  rcases h c hc with rfl | rfl
  · exact hcomma rfl
  · exact hbreak rfl

/-- Such a thing is not part of a number. -/
theorem Ends.isRun {rest : List Char} (h : Ends rest) {digits : List Char}
    (hdigits : ∀ d ∈ digits, isDigit d = true) : IsRun digits rest where
  isDigit := hdigits
  ends c hc := by rcases h c hc with rfl | rfl <;> rfl

theorem readWhole_toDigits (n : Nat) {rest : List Char} (hrest : Ends rest) :
    readWhole (Nat.toDigits 10 n ++ rest) = some (Nat.toDigits 10 n, rest) := by
  have hrun := hrest.isRun fun _ => Text.isDigit_of_mem_toDigits (n := n)
  have hdigits : readDigits (Nat.toDigits 10 n ++ rest) = some (Nat.toDigits 10 n, rest) := by
    rw [readDigits, hrun.takeWhile_eq, hrun.dropWhile_eq]
    split
    next hnil => exact absurd hnil Nat.toDigits_ne_nil
    next => rfl
  unfold readWhole
  split
  next rest' hzero =>
    -- a zero stands alone
    obtain ⟨d, ds, hcons⟩ := List.exists_cons_of_ne_nil (Nat.toDigits_ne_nil (b := 10) (n := n))
    rw [hcons, List.cons_append] at hzero
    obtain ⟨rfl, rfl⟩ := List.cons.inj hzero
    obtain rfl := eq_nil_of_toDigits_eq_cons hcons
    rw [hcons]
    cases rest with
    | nil => rfl
    | cons c rest =>
      have hc : isDigit c = false := hrun.ends c rfl
      simp [hc]
  next => exact hdigits

theorem readFraction_of_ends {rest : List Char} (hrest : Ends rest) :
    readFraction rest = some ([], rest) := by
  unfold readFraction
  split
  next => exact absurd rfl (hrest.head_ne (c := '.') (by decide) (by decide))
  next => rfl

theorem readExponent_of_ends {rest : List Char} (hrest : Ends rest) :
    readExponent rest = some (none, rest) := by
  cases rest with
  | nil => rfl
  | cons c rest =>
    have hmark : Text.isExponentMark c = false := by
      rcases hrest c rfl with rfl | rfl <;> rfl
    rw [readExponent, hmark]
    rfl

theorem readSize_toDigits (n : Nat) {rest : List Char} (hrest : Ends rest) :
    readSize false (Nat.toDigits 10 n ++ rest)
      = some (⟨false, Nat.toDigits 10 n, [], none⟩, rest) := by
  rw [readSize, readWhole_toDigits n hrest]
  dsimp only [bind, Option.bind]
  rw [readFraction_of_ends hrest]
  dsimp only
  rw [readExponent_of_ends hrest]
  rfl

/-- An integer that fits a word keeps its value. -/
theorem value?_toDigits {n : Nat} (hn : n < 2 ^ 64) :
    Spelling.value? ⟨false, Nat.toDigits 10 n, [], none⟩ = some (.int n) := by
  have hvalue : Nat.ofDigitChars 10 (Nat.toDigits 10 n) 0 = n :=
    Nat.ofDigitChars_toDigits (by decide) (by decide)
  have hdigits : ∀ d ∈ Nat.toDigits 10 n, isDigit d = true := fun _ => Text.isDigit_of_mem_toDigits
  have hfits : appendFitting 0 (Nat.toDigits 10 n) = (n, []) := by
    obtain hfits | ⟨_, _, -, -, -, hlarge⟩ := appendFitting_cases hdigits 0
    · rw [hfits, hvalue]
    · omega
  rw [Spelling.value?, hfits]
  rfl

/-! ### Values -/

/-- The value is spelled like this: that is read as the value wherever the value may end, and
starts with no white space. -/
structure Written (spelled : List Char) (value : Json) : Prop where
  starts : ∃ c cs, spelled = c :: cs ∧ isSpace c = false
  reads : ∀ room rest, Ends rest → readValue true room (spelled ++ rest) = some (value, rest)

/-- An unsigned number starts with a digit. -/
private theorem readNumber_digit {d : Char} (hd : isDigit d = true) (rest : List Char) :
    readNumber (d :: rest) = readSize false (d :: rest) := by
  unfold readNumber
  split
  next heq =>
    obtain ⟨rfl, -⟩ := List.cons.inj heq
    exact absurd hd (by decide)
  next => rfl

theorem written_integer {n : Nat} (hn : n < 2 ^ 64) :
    Written (toString n).toList (.number (some (.int n))) := by
  have htext : (toString n).toList = Nat.toDigits 10 n := Nat.toList_repr
  obtain ⟨d, ds, hcons⟩ := List.exists_cons_of_ne_nil (Nat.toDigits_ne_nil (b := 10) (n := n))
  have hd : isDigit d = true :=
    Text.isDigit_of_mem_toDigits (n := n) (hcons ▸ List.mem_cons_self)
  rw [htext]
  refine ⟨⟨d, ds, hcons, isSpace_head (.inr hd)⟩, fun room rest hrest => ?_⟩
  have hsize := readSize_toDigits n hrest
  rw [hcons, List.cons_append] at hsize ⊢
  rw [readValue_integer (.inr hd), readScalar_integer (.inr hd), readNumber_digit hd, hsize,
    ← hcons]
  dsimp only [Option.bind]
  rw [value?_toDigits hn]
  rfl

theorem written_bool (b : Bool) : Written (toString b).toList (.bool b) := by
  cases b with
  | true => exact ⟨⟨'t', _, rfl, rfl⟩, fun room rest _ => by cases room <;> rfl⟩
  | false => exact ⟨⟨'f', _, rfl, rfl⟩, fun room rest _ => by cases room <;> rfl⟩

theorem written_quote (text : String) : Written (quote text.toList) (.string (some text)) := by
  refine ⟨⟨'"', _, rfl, rfl⟩, fun room rest _ => ?_⟩
  have hvalue : readValue true room (quote text.toList ++ rest)
      = readScalar true (quote text.toList ++ rest) := by
    cases room <;> rfl
  rw [hvalue, quote, List.cons_append, List.append_assoc, List.singleton_append, readScalar,
    readText_escaped]
  rfl

/-! ### Members -/

/-- A key with a value, and how they are written. -/
def WrittenMember (spelled : String × List Char) (member : Option String × Json) : Prop :=
  member.1 = some spelled.1 ∧ Written spelled.2 member.2

theorem skipSpace_cons {c : Char} (hc : isSpace c = false) (cs : List Char) :
    skipSpace (c :: cs) = c :: cs := by
  rw [skipSpace, List.dropWhile_cons, hc]
  rfl

theorem Written.skipSpace_eq {spelled : List Char} {value : Json} (h : Written spelled value)
    (rest : List Char) : skipSpace (' ' :: (spelled ++ rest)) = spelled ++ rest := by
  obtain ⟨c, cs, rfl, hc⟩ := h.starts
  exact skipSpace_cons hc _

/-- **A line of an object** is read as its member. -/
theorem readMember_memberLine {spelled : String × List Char} {member : Option String × Json}
    (h : WrittenMember spelled member) (room : Nat) {rest : List Char} (hrest : Ends rest) :
    readMember true (readValue true room) ('\n' :: (Settings.memberLine spelled ++ rest))
      = some (member, rest) := by
  obtain ⟨key, value⟩ := member
  obtain ⟨rfl, hvalue⟩ : key = some spelled.1 ∧ Written spelled.2 value := h
  have hline : skipSpace ('\n' :: (Settings.memberLine spelled ++ rest))
      = '"' :: (spelled.1.toList.flatMap escapeChar ++
          '"' :: ':' :: ' ' :: (spelled.2 ++ rest)) := by
    simp [Settings.memberLine, quote, skipSpace, isSpace]
  have hcolon : skipSpace (':' :: ' ' :: (spelled.2 ++ rest)) = ':' :: ' ' :: (spelled.2 ++ rest) :=
    skipSpace_cons rfl _
  simp [readMember, hline, readText_escaped, hcolon, hvalue.skipSpace_eq,
    hvalue.reads room rest hrest]

/-- **The lines of an object** are read as its members. -/
theorem readMembers_memberLines {spelled : List (String × List Char)}
    {members : List (Option String × Json)} (h : List.Forall₂ WrittenMember spelled members)
    (hne : spelled ≠ []) (room : Nat) {fuel : Nat} (hfuel : spelled.length ≤ fuel)
    (rest : List Char) :
    readMembers true (readValue true room) fuel
        ('\n' :: ([',', '\n'].intercalate (spelled.map Settings.memberLine) ++
          '\n' :: '\x7d' :: rest))
      = some (members, rest) := by
  induction h generalizing fuel with
  | nil => exact absurd rfl hne
  | @cons first member spelled members hfirst hspelled ih =>
    obtain ⟨fuel, rfl⟩ := Nat.exists_eq_add_one_of_ne_zero (n := fuel)
      (by rintro rfl; exact absurd hfuel (by simp))
    cases hspelled with
    | nil =>
      -- the last line, before the closing brace
      have hends : Ends ('\n' :: '\x7d' :: rest) := by rintro c ⟨⟩; exact .inr rfl
      rw [List.map_singleton, List.intercalate_singleton, readMembers,
        readMember_memberLine hfirst room hends]
      rfl
    | @cons second member' spelled members' hsecond hspelled =>
      have hends (more : List Char) : Ends (',' :: '\n' :: more) := by rintro c ⟨⟩; exact .inl rfl
      have hlines : '\n' :: ([',', '\n'].intercalate
            ((first :: second :: spelled).map Settings.memberLine) ++ '\n' :: '\x7d' :: rest)
          = '\n' :: (Settings.memberLine first ++ ',' :: '\n' :: ([',', '\n'].intercalate
              ((second :: spelled).map Settings.memberLine) ++ '\n' :: '\x7d' :: rest)) := by
        rw [List.map_cons, List.map_cons, List.intercalate_cons_cons]
        simp
      have hmore := ih (List.cons_ne_nil _ _) (Nat.le_of_succ_le_succ hfuel)
      have hcomma (more : List Char) : skipSpace (',' :: '\n' :: more) = ',' :: '\n' :: more :=
        skipSpace_cons rfl _
      rw [hlines, readMembers, readMember_memberLine hfirst room (hends _)]
      simp only [bind, Option.bind, hcomma, hmore]
      rfl

/-! ### Objects -/

theorem length_le_length_intercalate {α : Type} {sep : List α} (hsep : sep ≠ [])
    (lines : List (List α)) : lines.length ≤ (sep.intercalate lines).length + 1 := by
  induction lines with
  | nil => exact Nat.zero_le _
  | cons line lines ih =>
    cases lines with
    | nil => exact Nat.le_add_left _ _
    | cons line' lines =>
      have hlength := List.length_pos_iff.mpr hsep
      rw [List.intercalate_cons_cons, List.length_append, List.length_append, List.length_cons]
      omega

theorem exists_intercalate_cons {α : Type} (sep line : List α) (lines : List (List α)) :
    ∃ rest, sep.intercalate (line :: lines) = line ++ rest := by
  cases lines with
  | nil => exact ⟨[], by rw [List.intercalate_singleton, List.append_nil]⟩
  | cons line' lines =>
    refine ⟨sep ++ sep.intercalate (line' :: lines), ?_⟩
    rw [List.intercalate_cons_cons, List.append_assoc]

/-- An object that is not closed at once has members. -/
theorem readValue_object (room : Nat) {rest cs : List Char} {c : Char}
    (hrest : skipSpace rest = c :: cs) (hc : c ≠ '\x7d') :
    readValue true (room + 1) ('\x7b' :: rest)
      = (readMembers true (readValue true room) rest.length rest).map
          fun read => (.object read.1, read.2) := by
  simp only [readValue]
  split
  next heq =>
    rw [hrest] at heq
    exact absurd (List.cons.inj heq).1 hc
  next => rfl

/-- **An object that is written one member a line** is read as the members that were written. -/
theorem parseChecked?_object {spelled : List (String × List Char)}
    {members : List (Option String × Json)} (h : List.Forall₂ WrittenMember spelled members)
    (hne : spelled ≠ []) :
    parseChecked? (['\x7b', '\n'] ++ [',', '\n'].intercalate (spelled.map Settings.memberLine)
      ++ ['\n', '\x7d']) = some (.object members) := by
  obtain ⟨body, hbody⟩ : ∃ body, '\n' :: ([',', '\n'].intercalate
      (spelled.map Settings.memberLine) ++ '\n' :: '\x7d' :: []) = body := ⟨_, rfl⟩
  have hlength : spelled.length ≤ body.length := by
    have hlines := length_le_length_intercalate (List.cons_ne_nil ',' ['\n'])
      (spelled.map Settings.memberLine)
    rw [List.length_map] at hlines
    rw [← hbody, List.length_cons, List.length_append]
    omega
  have hmembers := readMembers_memberLines h hne 126 hlength []
  have hfirst : ∃ cs, skipSpace body = '"' :: cs := by
    obtain ⟨first, more, rfl⟩ := List.exists_cons_of_ne_nil hne
    obtain ⟨rest, hrest⟩ := exists_intercalate_cons [',', '\n'] (Settings.memberLine first)
      (more.map Settings.memberLine)
    rw [← hbody, List.map_cons, hrest]
    exact ⟨_, rfl⟩
  obtain ⟨cs, hcs⟩ := hfirst
  have htext : ['\x7b', '\n'] ++ [',', '\n'].intercalate (spelled.map Settings.memberLine)
      ++ ['\n', '\x7d'] = '\x7b' :: body := by
    rw [← hbody]
    simp
  rw [hbody] at hmembers
  rw [htext, parseChecked?, parse?, skipSpace_cons rfl, maxDepth,
    readValue_object 126 hcs (by decide), hmembers]
  rfl

end SceneCanvas.Json
