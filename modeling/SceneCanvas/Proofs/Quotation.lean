import SceneCanvas.Proofs.Sequencing
import SceneCanvas.Proofs.Tokenizer

/-!
# Captions in quotes

A caption is written as a command, its text between quotes, and modifiers. The text is looked at
four times on its way into a plan: for separators, for the comment mark, for the closing quote, and,
as a token that no longer has its quotes, for a colon, which makes it an option. A text that the
first three looks let pass is one token (`Script.tokens_captionLine`), and it is the text of the
caption just if it holds no colon (`Script.Plan.parse_captionLine`).

Commands and modifiers are words that no look stops at (`Script.IsWord`), so the same reading holds
of every command.
-/

namespace SceneCanvas.Script

open Text

/-! ### Words that stand for themselves -/

/-- The character ends neither a word nor a line, opens and closes nothing, and makes neither a
comment nor an option. -/
def isInert (c : Char) : Bool :=
  !isBlank c && !isSeparator c && decide (c ∉ ['"', '[', '%', ':'])

/-- The word stands for itself wherever it is written. -/
structure IsWord (word : List Char) : Prop where
  ne_nil : word ≠ []
  inert : ∀ c ∈ word, isInert c = true

instance : DecidablePred IsWord := fun word =>
  decidable_of_iff (word.isEmpty = false ∧ word.all isInert = true)
    ⟨fun h => ⟨List.isEmpty_eq_false_iff.mp h.1, List.all_eq_true.mp h.2⟩,
      fun h => ⟨List.isEmpty_eq_false_iff.mpr h.ne_nil, List.all_eq_true.mpr h.inert⟩⟩

theorem isBlank_of_isInert {c : Char} (h : isInert c = true) : isBlank c = false := by
  simp only [isInert, Bool.and_eq_true, Bool.not_eq_true'] at h
  exact h.1.1

theorem isSeparator_of_isInert {c : Char} (h : isInert c = true) : isSeparator c = false := by
  simp only [isInert, Bool.and_eq_true, Bool.not_eq_true'] at h
  exact h.1.2

theorem notMem_of_isInert {c : Char} (h : isInert c = true) : c ∉ ['"', '[', '%', ':'] := by
  simp only [isInert, Bool.and_eq_true, decide_eq_true_eq] at h
  exact h.2

theorem isWord_of_isModifier {m : String} (h : Caption.isModifier m = true) : IsWord m.toList := by
  simp only [Caption.isModifier, Bool.or_eq_true, beq_iff_eq] at h
  rcases h with ((rfl | rfl) | rfl) | rfl <;> decide

namespace IsWord

variable {word : List Char} (h : IsWord word)

include h

theorem notMem_colon : ':' ∉ word := by
  intro hmem
  exact absurd (h.inert ':' hmem) (by decide)

/-- What starts with a word, and goes on up to white space or the end, is read as it is. -/
theorem reads_append {tail rest : List Char} (htail : ∀ c ∈ tail, isBlank c = false)
    (hrest : ∀ c ∈ rest.head?, isBlank c = true) :
    Reads (word ++ tail ++ rest) (word ++ tail) (word ++ tail) rest := by
  obtain ⟨c, cs, rfl⟩ := List.exists_cons_of_ne_nil h.ne_nil
  have hc : c ∉ ['"', '[', '%', ':'] := notMem_of_isInert (h.inert c List.mem_cons_self)
  have hopens {opening close : Char} (hopening : opening ∈ ['"', '[', '%', ':'])
      (body rest' : List Char) :
      ¬ Encloses opening close (c :: cs ++ tail ++ rest) body rest' := by
    rintro hencloses
    obtain ⟨rfl, -⟩ := encloses_cons_iff.mp hencloses
    exact hc hopening
  have hblank : ∀ d ∈ c :: cs ++ tail, isBlank d = false :=
    List.forall_mem_append.mpr ⟨fun d hd => isBlank_of_isInert (h.inert d hd), htail⟩
  refine .plain (List.cons_ne_nil _ _) hblank hrest ?_ ?_
  · exact hopens (by decide)
  · exact hopens (by decide)

/-- A word before white space, or at the end, is read as it is. -/
theorem reads {rest : List Char} (hrest : ∀ c ∈ rest.head?, isBlank c = true) :
    Reads (word ++ rest) word word rest := by
  have hnone : ∀ c ∈ ([] : List Char), isBlank c = false := nofun
  have hreads := h.reads_append hnone hrest
  rwa [List.append_nil] at hreads

end IsWord

/-! ### The line of a caption -/

/-- Words, each behind a space. -/
def spaced (words : List String) : List Char := words.flatMap fun word => ' ' :: word.toList

/-- A command, a text between quotes, and modifiers. -/
def captionLine (command text : String) (modifiers : List String) : List Char :=
  command.toList ++ ' ' :: (inQuotes text.toList ++ spaced modifiers)

/-- The text fits between quotes on a line: it neither closes the quotes nor ends the line, and
makes no comment of it. -/
structure Quotable (text : String) : Prop where
  ne_nil : text.toList ≠ []
  notMem_quote : '"' ∉ text.toList
  unbroken : Unbroken text
  contains_mark : contains text.toList ['%', '%'] = false

/-- What stands behind the text of a caption starts with white space, if it is anything. -/
theorem isBlank_of_mem_head?_spaced (words : List String) :
    ∀ c ∈ (spaced words).head?, isBlank c = true := by
  intro c hc
  cases words with
  | nil => cases hc
  | cons word words =>
    obtain rfl : ' ' = c := Option.some.inj hc
    rfl

/-- Words with a space before each are cut at the spaces. -/
theorem decomposes_spaced {words : List String} (hwords : ∀ word ∈ words, IsWord word.toList) :
    Decomposes (spaced words) (words.map fun word => ⟨[' '], word.toList, word.toList⟩) [] := by
  induction words with
  | nil => exact .gap rfl
  | cons word words ih =>
    obtain ⟨hword, hwords⟩ := List.forall_mem_cons.mp hwords
    have hreads := hword.reads (isBlank_of_mem_head?_spaced words)
    have hspace : allBlank [' '] = true := rfl
    exact .cut hspace hreads (ih hwords)

section

variable {command text : String} {modifiers : List String} (hcommand : IsWord command.toList)
  (htext : Quotable text) (hmodifiers : ∀ m ∈ modifiers, IsWord m.toList)

include hcommand htext hmodifiers

/-- **The text of a caption is one token**, and so are its command and its modifiers. -/
theorem tokens_captionLine :
    tokens (captionLine command text modifiers)
      = (command :: text :: modifiers).map String.toList := by
  have hquoted : Encloses '"' '"' (inQuotes text.toList ++ spaced modifiers) text.toList
      (spaced modifiers) := ⟨by simp [inQuotes], htext.ne_nil, htext.notMem_quote⟩
  have hblank : ∀ c ∈ (' ' :: (inQuotes text.toList ++ spaced modifiers)).head?,
      isBlank c = true := by
    rintro c ⟨⟩
    rfl
  have hnone : allBlank [] = true := rfl
  have hspace : allBlank [' '] = true := rfl
  have htokens := (Decomposes.cut hnone (hcommand.reads hblank)
    (.cut hspace (.quoted hquoted) (decomposes_spaced hmodifiers))).tokens_eq
  rw [List.nil_append] at htokens
  rw [captionLine, htokens]
  simp

/-- The line of a caption is one line. -/
theorem isSeparator_of_mem_captionLine :
    ∀ c ∈ captionLine command text modifiers, isSeparator c = false := by
  have hword {word : String} (h : IsWord word.toList) : ∀ c ∈ word.toList, isSeparator c = false :=
    fun c hc => isSeparator_of_isInert (h.inert c hc)
  intro c hc
  simp only [captionLine, inQuotes, spaced, List.mem_append, List.mem_cons, List.mem_flatMap,
    List.not_mem_nil, or_false] at hc
  rcases hc with hc | rfl | (rfl | hc | rfl) | ⟨m, hm, rfl | hc⟩
  · exact hword hcommand c hc
  · rfl
  · rfl
  · exact htext.unbroken c hc
  · rfl
  · rfl
  · exact hword (hmodifiers m hm) c hc

/-- The line of a caption is not skipped. -/
theorem isLive_captionLine : isLive (captionLine command text modifiers) = true := by
  have hword {word : String} (h : IsWord word.toList) : ∀ c ∈ word.toList, c ∉ ['%', '%'] := by
    intro c hc hmark
    obtain rfl : c = '%' := by simpa using hmark
    exact absurd (h.inert '%' hc) (by decide)
  have hmark : contains (captionLine command text modifiers) ['%', '%'] = false := by
    -- the mark could only be in the text
    have hbefore : ∀ c ∈ command.toList ++ [' ', '"'], c ∉ ['%', '%'] :=
      List.forall_mem_append.mpr ⟨hword hcommand, by simp⟩
    have hafter : ∀ c ∈ '"' :: spaced modifiers, c ∉ ['%', '%'] := by
      intro c hc
      simp only [spaced, List.mem_cons, List.mem_flatMap] at hc
      rcases hc with rfl | ⟨m, hm, rfl | hc⟩
      · decide
      · decide
      · exact hword (hmodifiers m hm) c hc
    have hline : captionLine command text modifiers
        = command.toList ++ [' ', '"'] ++ (text.toList ++ '"' :: spaced modifiers) := by
      simp [captionLine, inQuotes]
    rw [hline, contains_append_of_notMem _ (List.cons_ne_nil _ _) hbefore,
      contains_append_of_notMem_right _ (List.cons_ne_nil _ _) hafter, htext.contains_mark]
  have hwritten : allBlank (captionLine command text modifiers) = false := by
    obtain ⟨c, cs, hcons⟩ := List.exists_cons_of_ne_nil hcommand.ne_nil
    have hc := isBlank_of_isInert (hcommand.inert c (hcons ▸ List.mem_cons_self))
    rw [captionLine, hcons, List.cons_append, allBlank, List.all_cons, hc, Bool.false_and]
  rw [isLive, hwritten, hmark]
  rfl

/-- **The line of a caption asks for what its command makes of its text and its modifiers.** A text
with a colon is an option, so that the modifiers are all that is left. -/
theorem directivesOf_captionLine : ∃ line : Line,
    line.args = command :: ((if ':' ∈ text.toList then [] else [text]) ++ modifiers) ∧
      Plan.directivesOf (captionLine command text modifiers)
        = (Directive.ofLine? line).toList := by
  refine ⟨Line.ofTokens (tokens (captionLine command text modifiers)), ?_, ?_⟩
  · have hmods : modifiers.filter ((':' ∉ ·) ∘ String.toList) = modifiers :=
      List.filter_eq_self.mpr fun m hm => decide_eq_true (hmodifiers m hm).notMem_colon
    have hround : String.ofList ∘ String.toList = id := funext fun _ => String.ofList_toList
    rw [(Line.accountsFor_ofTokens _).args_eq, tokens_captionLine hcommand htext hmodifiers,
      List.filter_map, List.map_map]
    rw [hround, List.map_id, List.filter_cons_of_pos (by simpa using hcommand.notMem_colon)]
    split
    next hcolon =>
      rw [List.filter_cons_of_neg (by simpa using hcolon), hmods, List.nil_append]
    next hcolon =>
      rw [List.filter_cons_of_pos (by simpa using hcolon), hmods, List.singleton_append]
  · rw [Plan.directivesOf_eq_filterMap, splitWhere_eq_singleton
      (isSeparator_of_mem_captionLine hcommand htext hmodifiers), List.filterMap_cons,
      Plan.lineDirective?, if_pos (isLive_captionLine hcommand htext hmodifiers),
      Plan.directiveOf?, Line.ofChars, tokens_trim]
    cases Directive.ofLine? _ <;> rfl

/-- The plan of such a line, if all lines with these arguments ask for one thing. -/
theorem ofChars_captionLine {directive? : Option Directive}
    (h : ∀ line : Line,
      line.args = command :: ((if ':' ∈ text.toList then [] else [text]) ++ modifiers) →
        Directive.ofLine? line = directive?) :
    Plan.ofChars (captionLine command text modifiers) = directive?.toList.foldl Plan.add {} := by
  obtain ⟨line, hargs, hline⟩ := directivesOf_captionLine hcommand htext hmodifiers
  rw [Plan.ofChars, hline, h line hargs]

end

/-! ### Plans -/

theorem Line.command_and_rest {line : Line} {command : String} {args : List String}
    (h : line.args = command :: args) : line.command? = some command ∧ line.rest = args := by
  rw [command?, rest, h]
  exact ⟨rfl, rfl⟩

namespace Directive

variable {line : Line} {command : String} {args : List String}

theorem ofLine?_title (hargs : line.args = command :: args)
    (hcommand : command = "TITLE" ∨ command = "T") :
    ofLine? line = (textLine? args).map title := by
  obtain ⟨hfirst, hrest⟩ := Line.command_and_rest hargs
  rw [ofLine?, hfirst, hrest]
  rcases hcommand with rfl | rfl <;> cases textLine? args <;> rfl

theorem ofLine?_subtitle (hargs : line.args = command :: args)
    (hcommand : command = "SUBTITLE" ∨ command = "S") :
    ofLine? line = (textLine? args).map subtitle := by
  obtain ⟨hfirst, hrest⟩ := Line.command_and_rest hargs
  rw [ofLine?, hfirst, hrest]
  rcases hcommand with rfl | rfl <;> cases textLine? args <;> rfl

/-- The arguments behind the command give the caption back just if its text is one of them: the
modifiers alone are too few. -/
theorem textLine?_eq_some_iff {text : String} {modifiers : List String} :
    textLine? ((if ':' ∈ text.toList then [] else [text]) ++ modifiers) = some ⟨text, modifiers⟩ ↔
      ':' ∉ text.toList := by
  constructor
  · intro h hcolon
    rw [if_pos hcolon, List.nil_append] at h
    cases modifiers with
    | nil => cases h
    | cons m modifiers =>
      obtain ⟨-, hmodifiers⟩ := TextLine.mk.inj (Option.some.inj h)
      exact List.cons_ne_self m modifiers hmodifiers.symm
  · intro hcolon
    rw [if_neg hcolon]
    rfl

end Directive

namespace Plan

/-- **Text in quotes is taken verbatim, unless it holds a colon.** The plan of a caption has its
text and its modifiers, and nothing else, just if there is no colon in the text. -/
theorem parse_captionLine {text : String} {modifiers : List String} (htext : Quotable text)
    (hmodifiers : ∀ m ∈ modifiers, Caption.isModifier m = true) :
    (∀ command, command = "TITLE" ∨ command = "T" →
      (parse (String.ofList (captionLine command text modifiers))
          = { title := some ⟨text, modifiers⟩ } ↔ ':' ∉ text.toList)) ∧
    (∀ command, command = "SUBTITLE" ∨ command = "S" →
      (parse (String.ofList (captionLine command text modifiers))
          = { subtitle := some ⟨text, modifiers⟩ } ↔ ':' ∉ text.toList)) := by
  have hwords : ∀ m ∈ modifiers, IsWord m.toList := fun m hm =>
    isWord_of_isModifier (hmodifiers m hm)
  constructor
  · intro command hcommand
    have hword : IsWord command.toList := by
      rcases hcommand with rfl | rfl <;> decide
    have hplan := ofChars_captionLine hword htext hwords fun line hargs =>
      Directive.ofLine?_title hargs hcommand
    rw [parse, String.toList_ofList, hplan, ← @Directive.textLine?_eq_some_iff text modifiers]
    cases Directive.textLine? _ <;> simp [add]
  · intro command hcommand
    have hword : IsWord command.toList := by
      rcases hcommand with rfl | rfl <;> decide
    have hplan := ofChars_captionLine hword htext hwords fun line hargs =>
      Directive.ofLine?_subtitle hargs hcommand
    rw [parse, String.toList_ofList, hplan, ← @Directive.textLine?_eq_some_iff text modifiers]
    cases Directive.textLine? _ <;> simp [add]

/-- A title with spaces and a bracket, moved twice. -/
theorem parse_captionLine_dawn :
    parse "TITLE \"a [new  dawn\" < v" = { title := some ⟨"a [new  dawn", ["<", "v"]⟩ } := by
  have htext : Quotable "a [new  dawn" := ⟨by decide, by decide, by decide, by decide⟩
  have hmodifiers : ∀ m ∈ ["<", "v"], Caption.isModifier m = true := by decide
  exact ((parse_captionLine htext hmodifiers).1 "TITLE" (.inl rfl)).mpr (by decide)

/-- **A text with a colon is lost**, quotes or not: it is an option of its line. -/
theorem captionLine_colon_lost :
    ¬ ∀ (text : String) (modifiers : List String), Quotable text →
      (∀ m ∈ modifiers, Caption.isModifier m = true) →
      parse (String.ofList (captionLine "TITLE" text modifiers))
        = { title := some ⟨text, modifiers⟩ } := by
  intro h
  have htext : Quotable "Act 1: Dawn" := ⟨by decide, by decide, by decide, by decide⟩
  have hplan := congrArg (fun plan => plan.title.isSome) (h "Act 1: Dawn" [] htext (by simp))
  exact absurd hplan (by decide +kernel)

end Plan

end SceneCanvas.Script
