import SceneCanvas.Render.Run
import SceneCanvas.Proofs.Text

/-!
# Sources put one after the other

What a source asks for is what its lines ask for, each on its own: nothing of one line reaches
across a separator, whatever quotes, brackets, comment marks or white space it holds. So two
sources with a separator between them spell the two plans one after the other
(`Script.Plan.ofChars_append_cons`), and a plan depends on its source only by the effect lines, the
title lines and the subtitle lines, each in their own order (`Script.Plan.ofChars_eq_of_filter_eq`).

* `Script.Plan.directivesOf_eq_filterMap` is the reason: trimming the whole source first, and
  skipping lines before they are read, come to reading each line on its own.
* `Script.Plan.parse_sequencing` is the law for whole texts.
-/

namespace SceneCanvas.Script

open Text

/-! ### White space around a line -/

/-- The comment mark holds no white space. -/
private theorem notMem_mark_of_blank {c : Char} (hc : isBlank c = true) : c ∉ ['%', '%'] := by
  intro h
  have hpercent : c = '%' := by simpa using h
  exact absurd (hpercent ▸ hc) (by decide)

theorem isLive_blank_cons {c : Char} (hc : isBlank c = true) (line : List Char) :
    isLive (c :: line) = isLive line := by
  have hmark := contains_cons_of_notMem line (List.cons_ne_nil _ _) (notMem_mark_of_blank hc)
  rw [isLive, hmark, allBlank, List.all_cons, hc, Bool.true_and, isLive, allBlank]

theorem isLive_concat_blank {c : Char} (hc : isBlank c = true) (line : List Char) :
    isLive (line ++ [c]) = isLive line := by
  have hmark := contains_concat_of_notMem line (List.cons_ne_nil _ _) (notMem_mark_of_blank hc)
  rw [isLive, hmark, allBlank, List.all_append, List.all_cons, hc, List.all_nil, Bool.and_true,
    Bool.and_true, isLive, allBlank]

namespace Plan

/-- What a line asks for, read on its own: nothing if it is skipped. -/
def lineDirective? (line : List Char) : Option Directive :=
  if isLive line then directiveOf? line else none

theorem lineDirective?_of_allBlank {line : List Char} (h : allBlank line = true) :
    lineDirective? line = none := by
  rw [lineDirective?, isLive, h]
  rfl

theorem lineDirective?_blank_cons {c : Char} (hc : isBlank c = true) (line : List Char) :
    lineDirective? (c :: line) = lineDirective? line := by
  rw [lineDirective?, isLive_blank_cons hc, directiveOf?, trim_blank_cons hc, lineDirective?,
    directiveOf?]

theorem lineDirective?_concat_blank {c : Char} (hc : isBlank c = true) (line : List Char) :
    lineDirective? (line ++ [c]) = lineDirective? line := by
  rw [lineDirective?, isLive_concat_blank hc, directiveOf?, trim_concat_blank hc, lineDirective?,
    directiveOf?]

/-! ### White space around a source -/

theorem filterMap_splitWhere_blank_append {before : List Char} (h : allBlank before = true)
    (source : List Char) : (splitWhere isSeparator (before ++ source)).filterMap lineDirective?
      = (splitWhere isSeparator source).filterMap lineDirective? := by
  induction before with
  | nil => rfl
  | cons c before ih =>
    rw [allBlank, List.all_cons, Bool.and_eq_true] at h
    rw [← ih h.2, List.cons_append]
    cases hc : isSeparator c with
    | true =>
      -- a separator: one more line in front, and it is empty
      rw [splitWhere_cons_of_pos hc, List.filterMap_cons, lineDirective?_of_allBlank rfl]
    | false =>
      -- white space in front of the first line
      obtain ⟨line, lines, hlines, hcons⟩ := splitWhere_cons_of_neg hc (before ++ source)
      rw [hlines, hcons, List.filterMap_cons, List.filterMap_cons, lineDirective?_blank_cons h.1]

theorem filterMap_splitWhere_append_blank {after : List Char} (h : allBlank after = true)
    (source : List Char) : (splitWhere isSeparator (source ++ after)).filterMap lineDirective?
      = (splitWhere isSeparator source).filterMap lineDirective? := by
  induction after generalizing source with
  | nil => rw [List.append_nil]
  | cons c after ih =>
    rw [allBlank, List.all_cons, Bool.and_eq_true] at h
    rw [← List.singleton_append, ← List.append_assoc, ih h.2]
    cases hc : isSeparator c with
    | true =>
      rw [splitWhere_append_cons hc, List.filterMap_append, splitWhere, List.filterMap_cons,
        lineDirective?_of_allBlank rfl, List.filterMap_nil, List.append_nil]
    | false =>
      -- white space behind the last line
      obtain ⟨lines, line, hlines, hconcat⟩ := splitWhere_concat_of_neg hc source
      rw [hlines, hconcat, List.filterMap_append, List.filterMap_append, List.filterMap_cons,
        List.filterMap_cons, lineDirective?_concat_blank h.1]

/-- **Each line is read on its own.** -/
theorem directivesOf_eq_filterMap (source : List Char) :
    directivesOf source = (splitWhere isSeparator source).filterMap lineDirective? := by
  obtain ⟨before, after, hsource, hbefore, hafter⟩ := exists_eq_trim source
  have hlines : (splitWhere isSeparator source).filterMap lineDirective?
      = (splitWhere isSeparator (trim source)).filterMap lineDirective? := by
    rw [hsource, filterMap_splitWhere_append_blank hafter,
      filterMap_splitWhere_blank_append hbefore, ← hsource]
  rw [hlines, directivesOf, liveLines, List.filterMap_filter]
  rfl

theorem directivesOf_append_cons {s : Char} (hs : isSeparator s = true) (a b : List Char) :
    directivesOf (a ++ s :: b) = directivesOf a ++ directivesOf b := by
  simp only [directivesOf_eq_filterMap, splitWhere_append_cons hs, List.filterMap_append]

end Plan

/-! ### The three parts of a plan -/

namespace Directive

/-- The directive, unless it is a caption. -/
def effect? : Directive → Option Directive
  | title _ | subtitle _ => none
  | directive => some directive

/-- The title of a directive that is one. -/
def title? : Directive → Option TextLine
  | title line => some line
  | _ => none

/-- The subtitle of a directive that is one. -/
def subtitle? : Directive → Option TextLine
  | subtitle line => some line
  | _ => none

end Directive

namespace Plan

/-- A plan has the effects of its directives in order, the last title and the last subtitle. -/
theorem foldl_add (directives : List Directive) (plan : Plan) :
    directives.foldl add plan =
      { directives := plan.directives ++ directives.filterMap Directive.effect?
        title := (directives.filterMap Directive.title?).getLast?.or plan.title
        subtitle := (directives.filterMap Directive.subtitle?).getLast?.or plan.subtitle } := by
  induction directives generalizing plan with
  | nil => simp
  | cons directive directives ih =>
    rw [List.foldl_cons, ih]
    cases directive <;>
      simp [add, Directive.effect?, Directive.title?, Directive.subtitle?, List.getLast?_cons,
        Option.or_some, List.filterMap_cons]

theorem ofChars_eq (source : List Char) :
    ofChars source =
      { directives := (directivesOf source).filterMap Directive.effect?
        title := ((directivesOf source).filterMap Directive.title?).getLast?
        subtitle := ((directivesOf source).filterMap Directive.subtitle?).getLast? } := by
  rw [ofChars, foldl_add]
  simp only [List.nil_append, Option.or_none]

/-- **Two sources with a separator between them** spell the directives of the first followed by
those of the second, and the captions of the second where it has them. -/
theorem ofChars_append_cons {s : Char} (hs : isSeparator s = true) (a b : List Char) :
    ofChars (a ++ s :: b) =
      { directives := (ofChars a).directives ++ (ofChars b).directives
        title := (ofChars b).title.or (ofChars a).title
        subtitle := (ofChars b).subtitle.or (ofChars a).subtitle } := by
  simp only [ofChars_eq, directivesOf_append_cons hs, List.filterMap_append, List.getLast?_append]

/-- A source without separators is one line. -/
theorem ofChars_of_unbroken {line : List Char} (h : ∀ c ∈ line, isSeparator c = false) :
    ofChars line = (lineDirective? line).elim {} ({} : Plan).add := by
  rw [ofChars, directivesOf_eq_filterMap, splitWhere_eq_singleton h]
  cases hline : lineDirective? line with
  | none => rw [List.filterMap_cons_none hline]; rfl
  | some directive => rw [List.filterMap_cons_some hline]; rfl

/-! ### What kind of line a directive comes from -/

/-- The command of a line. -/
def commandOf? (line : List Char) : Option String := (Line.ofChars (trim line)).command?

/-- The line has the title command, with or without a text. -/
def isTitleLine (line : List Char) : Bool :=
  commandOf? line == some "TITLE" || commandOf? line == some "T"

/-- The line has the subtitle command, with or without a text. -/
def isSubtitleLine (line : List Char) : Bool :=
  commandOf? line == some "SUBTITLE" || commandOf? line == some "S"

/-- The line is no caption. -/
def isEffectLine (line : List Char) : Bool := !isTitleLine line && !isSubtitleLine line

/-- The lines that hold something. -/
def written (lines : List (List Char)) : List (List Char) := lines.filter (!allBlank ·)

end Plan

/-- The directive of a line has the kind that its command says. -/
theorem Directive.kind_of_ofLine?_eq_some {line : Line} {directive : Directive}
    (h : ofLine? line = some directive) :
    (directive.title?.isSome → line.command? = some "TITLE" ∨ line.command? = some "T") ∧
    (directive.subtitle?.isSome → line.command? = some "SUBTITLE" ∨ line.command? = some "S") ∧
    (directive.effect?.isSome → line.command? ≠ some "TITLE" ∧ line.command? ≠ some "T" ∧
      line.command? ≠ some "SUBTITLE" ∧ line.command? ≠ some "S") := by
  unfold ofLine? at h
  cases hcommand : line.command? with
  | none => rw [hcommand] at h; cases h
  | some command =>
    rw [hcommand] at h
    dsimp only [bind, Option.bind] at h
    split at h
    case h_1 | h_2 | h_3 | h_4 =>
      -- a caption, if there is a text
      cases htext : textLine? line.rest with
      | none => rw [htext] at h; cases h
      | some text => rw [htext] at h; cases h; simp [title?, subtitle?, effect?]
    case h_15 =>
      -- a picture is named by a word that is none of the commands
      cases h
      simp_all [title?, subtitle?, effect?]
    all_goals
      cases h
      simp [title?, subtitle?, effect?]

namespace Plan

theorem kind_of_lineDirective?_eq_some {line : List Char} {directive : Directive}
    (h : lineDirective? line = some directive) :
    (directive.title?.isSome → isTitleLine line = true) ∧
    (directive.subtitle?.isSome → isSubtitleLine line = true) ∧
    (directive.effect?.isSome → isEffectLine line = true) := by
  obtain ⟨-, hline⟩ := Option.ite_none_right_eq_some.mp h
  obtain ⟨htitle, hsubtitle, heffect⟩ := Directive.kind_of_ofLine?_eq_some hline
  refine ⟨fun hd => ?_, fun hd => ?_, fun hd => ?_⟩
  · simpa [isTitleLine, commandOf?] using htitle hd
  · simpa [isSubtitleLine, commandOf?] using hsubtitle hd
  · obtain ⟨h1, h2, h3, h4⟩ := heffect hd
    simp [isEffectLine, isTitleLine, isSubtitleLine, commandOf?, h1, h2, h3, h4]

/-- A part of a plan that only lines of one kind have something to say about is found in those
lines, and blank lines are not asked. -/
theorem filterMap_lineDirective? {α : Type} (part : Directive → Option α) (kind : List Char → Bool)
    (hkind : ∀ line directive, lineDirective? line = some directive → (part directive).isSome →
      kind line = true) (lines : List (List Char)) :
    (lines.filterMap lineDirective?).filterMap part
      = ((written lines).filter kind).filterMap fun line => (lineDirective? line).bind part := by
  rw [List.filterMap_filterMap, written, List.filterMap_filter, List.filterMap_filter]
  congr 1
  funext line
  cases hblank : allBlank line with
  | true => simp [lineDirective?_of_allBlank hblank]
  | false =>
    cases hline : lineDirective? line with
    | none => simp
    | some directive =>
      cases hpart : part directive with
      | none => simp [hpart]
      | some value => simp [hpart, hkind line directive hline (by simp [hpart])]

/-- **A plan depends on its source only by three lists of lines**: what is written of the effect
lines, of the title lines and of the subtitle lines, each in their order. -/
theorem ofChars_eq_of_filter_eq {source source' : List Char}
    (heffects : (written (splitWhere isSeparator source)).filter isEffectLine
      = (written (splitWhere isSeparator source')).filter isEffectLine)
    (htitles : (written (splitWhere isSeparator source)).filter isTitleLine
      = (written (splitWhere isSeparator source')).filter isTitleLine)
    (hsubtitles : (written (splitWhere isSeparator source)).filter isSubtitleLine
      = (written (splitWhere isSeparator source')).filter isSubtitleLine) :
    ofChars source = ofChars source' := by
  have heffect := filterMap_lineDirective? Directive.effect? isEffectLine
    fun _ _ h => (kind_of_lineDirective?_eq_some h).2.2
  have htitle := filterMap_lineDirective? Directive.title? isTitleLine
    fun _ _ h => (kind_of_lineDirective?_eq_some h).1
  have hsubtitle := filterMap_lineDirective? Directive.subtitle? isSubtitleLine
    fun _ _ h => (kind_of_lineDirective?_eq_some h).2.1
  simp only [ofChars_eq, directivesOf_eq_filterMap, heffect, htitle, hsubtitle, heffects, htitles,
    hsubtitles]

end Plan

/-! ### Lines and separators -/

/-- There is no separator in the text, so it stands on one line. -/
def Unbroken (text : String) : Prop := ∀ c ∈ text.toList, isSeparator c = false

instance : DecidablePred Unbroken := fun text =>
  List.decidableBAll (fun c => isSeparator c = false) text.toList

/-- A source as it is written: a first line, and further lines, each behind its separator. -/
structure Spelling where
  first : List Char
  rest : List (Char × List Char)
  separated : ∀ s ∈ rest.map Prod.fst, isSeparator s = true
  unbroken : ∀ line ∈ first :: rest.map Prod.snd, ∀ c ∈ line, isSeparator c = false

namespace Spelling

/-- The lines, without the separators. -/
def lines (u : Spelling) : List (List Char) := u.first :: u.rest.map Prod.snd

/-- The source itself. -/
def text (u : Spelling) : String :=
  String.ofList (u.first ++ u.rest.flatMap fun part => part.1 :: part.2)

/-- The lines of a source are the lines that it is written in. -/
theorem splitWhere_text (u : Spelling) : splitWhere isSeparator u.text.toList = u.lines := by
  obtain ⟨first, rest, hseparated, hunbroken⟩ := u
  rw [text, lines, String.toList_ofList]
  induction rest generalizing first with
  | nil =>
    rw [List.flatMap_nil, List.append_nil]
    exact splitWhere_eq_singleton (hunbroken first List.mem_cons_self)
  | cons part rest ih =>
    obtain ⟨s, line⟩ := part
    rw [List.map_cons, List.forall_mem_cons] at hseparated hunbroken
    rw [List.flatMap_cons, List.cons_append, splitWhere_append_cons hseparated.1,
      splitWhere_eq_singleton hunbroken.1, ih line hseparated.2 hunbroken.2]
    rfl

end Spelling

/-- **Sequencing of scenes.** Two texts with a separator between them spell the directives of the
first followed by those of the second, and for each caption the one of the second text if it has
one. Sources that, blank lines aside, have the same effect lines, the same title lines and the same
subtitle lines, each in the same order, spell the same plan and are carried out in the same steps:
it does not matter which separators they use and where blank lines and captions stand. And a text
on one line spells what this line asks for, nothing if it is skipped. -/
theorem Plan.parse_sequencing :
    (∀ (a b : String) (s : Char), s = '\r' ∨ s = '\n' ∨ s = '&' →
      parse (a ++ String.singleton s ++ b) =
        { directives := (parse a).directives ++ (parse b).directives
          title := (parse b).title.or (parse a).title
          subtitle := (parse b).subtitle.or (parse a).subtitle }) ∧
    (∀ u v : Spelling,
      (written u.lines).filter isEffectLine = (written v.lines).filter isEffectLine →
      (written u.lines).filter isTitleLine = (written v.lines).filter isTitleLine →
      (written u.lines).filter isSubtitleLine = (written v.lines).filter isSubtitleLine →
      parse u.text = parse v.text ∧
        ∀ settings, Render.stepsOf settings (parse u.text)
          = Render.stepsOf settings (parse v.text)) ∧
    ∀ line : String, Unbroken line →
      parse line = (lineDirective? line.toList).elim {} ({} : Plan).add := by
  refine ⟨?_, ?_, fun line hline => ofChars_of_unbroken hline⟩
  · intro a b s hs
    have hseparator : isSeparator s = true := by
      rcases hs with rfl | rfl | rfl <;> rfl
    rw [parse, String.toList_append, String.toList_append, String.toList_singleton,
      List.append_assoc, List.singleton_append, ofChars_append_cons hseparator]
    rfl
  · intro u v heffects htitles hsubtitles
    have hparse : parse u.text = parse v.text := by
      rw [← u.splitWhere_text, ← v.splitWhere_text] at heffects htitles hsubtitles
      exact ofChars_eq_of_filter_eq heffects htitles hsubtitles
    exact ⟨hparse, fun settings => by rw [hparse]⟩

/-- A title before or after the only effect, with another separator and a blank line between. -/
theorem Plan.parse_sequencing_title :
    parse ("T a" ++ String.singleton '&' ++ "INVERT") =
      { directives := (parse "T a").directives ++ (parse "INVERT").directives
        title := (parse "INVERT").title.or (parse "T a").title
        subtitle := (parse "INVERT").subtitle.or (parse "T a").subtitle } ∧
    parse "T a&INVERT" = parse "INVERT\n \nT a" ∧
    parse "INVERT" = { directives := [.invert] } := by
  let u : Spelling := ⟨['T', ' ', 'a'], [('&', ['I', 'N', 'V', 'E', 'R', 'T'])],
    by simp [isSeparator], by simp [isSeparator]⟩
  let v : Spelling := ⟨['I', 'N', 'V', 'E', 'R', 'T'], [('\n', [' ']), ('\n', ['T', ' ', 'a'])],
    by simp [isSeparator], by simp [isSeparator]⟩
  refine ⟨parse_sequencing.1 _ _ _ (by decide), ?_, ?_⟩
  · exact (parse_sequencing.2.1 u v (by decide +kernel) (by decide +kernel) (by decide +kernel)).1
  · have hlive : isLive "INVERT".toList = true := by decide
    have hline : Line.ofChars (trim "INVERT".toList) = { args := ["INVERT"] } := by decide +kernel
    rw [parse_sequencing.2.2 "INVERT" (by decide), lineDirective?, if_pos hlive, directiveOf?, hline]
    rfl

end SceneCanvas.Script
