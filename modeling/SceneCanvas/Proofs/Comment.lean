import SceneCanvas.Proofs.Sequencing

/-!
# Comments

A line that holds the comment mark `%%` is skipped whole, and a line ends at every separator, `&`
among them. So a comment reaches up to the next separator: what stands in it, and what stands before
it on its line, asks for nothing, and the lines around it are read as though it were not there.

* `Script.Plan.directivesOf_comment_line` takes out the line of a comment.
* `Script.Plan.exists_directivesOf_comment` says, of any text before a comment, that what the whole
  source asks for does not depend on the comment.
* `Script.Plan.parse_comment` states both of plans. That a comment does not reach further, up to the
  end of the written line, is `Script.Plan.comment_ends_at_ampersand`.
-/

namespace SceneCanvas.Script

open Text

namespace Plan

/-! ### The line of a comment -/

theorem isLive_of_mark (before after : List Char) :
    isLive (before ++ ['%', '%'] ++ after) = false := by
  have hmark : contains (before ++ ['%', '%'] ++ after) ['%', '%'] = true :=
    contains_iff_infix.mpr ⟨before, after, rfl⟩
  rw [isLive, hmark]
  exact Bool.and_false _

/-- A line with a comment mark asks for nothing. -/
theorem lineDirective?_of_mark (before after : List Char) :
    lineDirective? (before ++ ['%', '%'] ++ after) = none := by
  rw [lineDirective?, isLive_of_mark]
  rfl

/-- The mark itself is no separator. -/
private theorem isSeparator_mark : ∀ c ∈ ['%', '%'], isSeparator c = false := by
  intro c hc
  obtain rfl : c = '%' := by
    simpa using hc
  rfl

section

variable {s : Char} (hs : isSeparator s = true) {body : List Char}
  (hbody : ∀ c ∈ body, isSeparator c = false)

include hs hbody

/-- **A line with a comment** may be left out. -/
theorem directivesOf_comment_line {line : List Char} (hline : ∀ c ∈ line, isSeparator c = false)
    (q : List Char) :
    directivesOf (line ++ ['%', '%'] ++ body ++ s :: q) = directivesOf q := by
  have hunbroken : ∀ c ∈ line ++ ['%', '%'] ++ body, isSeparator c = false :=
    List.forall_mem_append.mpr ⟨List.forall_mem_append.mpr ⟨hline, isSeparator_mark⟩, hbody⟩
  have hcomment : directivesOf (line ++ ['%', '%'] ++ body) = [] := by
    rw [directivesOf_eq_filterMap, splitWhere_eq_singleton hunbroken, List.filterMap_cons,
      lineDirective?_of_mark, List.filterMap_nil]
  rw [directivesOf_append_cons hs, hcomment, List.nil_append]

end

/-- **What comes before a comment** has its say, and what comes behind it; the comment has none. -/
theorem exists_directivesOf_comment (p : List Char) : ∃ before, ∀ (s : Char) (body q : List Char),
    isSeparator s = true → (∀ c ∈ body, isSeparator c = false) →
      directivesOf (p ++ ['%', '%'] ++ body ++ s :: q) = before ++ directivesOf q := by
  obtain ⟨lines, line, -, happend⟩ := exists_splitWhere_append (p := isSeparator) p
  refine ⟨lines.filterMap lineDirective?, fun s body q hs hbody => ?_⟩
  -- the comment belongs to the last line before it, which is thereby skipped
  have htail : ∀ c ∈ ['%', '%'] ++ body, isSeparator c = false :=
    List.forall_mem_append.mpr ⟨isSeparator_mark, hbody⟩
  have hcomment : directivesOf (p ++ ['%', '%'] ++ body) = lines.filterMap lineDirective? := by
    rw [List.append_assoc, directivesOf_eq_filterMap, happend _ htail, List.filterMap_append,
      List.filterMap_cons, ← List.append_assoc, lineDirective?_of_mark, List.filterMap_nil,
      List.append_nil]
  rw [directivesOf_append_cons hs, hcomment]

/-! ### Plans -/

private theorem ofChars_congr {source source' : List Char}
    (h : directivesOf source = directivesOf source') : ofChars source = ofChars source' := by
  rw [ofChars, h, ofChars]

private theorem toList_comment (p body q : String) (s : Char) :
    (p ++ "%%" ++ body ++ String.singleton s ++ q).toList
      = p.toList ++ ['%', '%'] ++ body.toList ++ s :: q.toList := by
  simp only [String.toList_append, String.toList_singleton, List.append_assoc,
    List.singleton_append]
  rfl

/-- **Comments are inert** up to the next separator. Whatever stands in a comment, the plan is the
same. The line of a comment, with what stands before the mark, may be left out: the plan is the one
of the lines before it and of those behind it. -/
theorem parse_comment :
    (∀ (p q body body' : String) (s : Char), isSeparator s = true → Unbroken body →
      Unbroken body' →
      parse (p ++ "%%" ++ body ++ String.singleton s ++ q)
        = parse (p ++ "%%" ++ body' ++ String.singleton s ++ q)) ∧
    (∀ (line q body : String) (s : Char), isSeparator s = true → Unbroken body → Unbroken line →
      parse (line ++ "%%" ++ body ++ String.singleton s ++ q) = parse q ∧
      ∀ (p : String) (t : Char), isSeparator t = true →
        parse (p ++ String.singleton t ++ (line ++ "%%" ++ body ++ String.singleton s ++ q))
          = parse (p ++ String.singleton t ++ q)) := by
  constructor
  · intro p q body body' s hs hbody hbody'
    obtain ⟨before, hbefore⟩ := exists_directivesOf_comment p.toList
    rw [parse, parse, toList_comment, toList_comment]
    apply ofChars_congr
    rw [hbefore s _ _ hs hbody, hbefore s _ _ hs hbody']
  · intro line q body s hs hbody hline
    have hcomment : parse (line ++ "%%" ++ body ++ String.singleton s ++ q) = parse q := by
      rw [parse, toList_comment]
      exact ofChars_congr (directivesOf_comment_line hs hbody hline q.toList)
    refine ⟨hcomment, fun p t ht => ?_⟩
    have hparse (source : String) : parse (p ++ String.singleton t ++ source)
        = ofChars (p.toList ++ t :: source.toList) := by
      simp [parse, String.toList_append]
    rw [parse, parse] at hcomment
    rw [hparse, hparse, ofChars_append_cons ht, ofChars_append_cons ht, hcomment]

/-- A comment with quotes, a bracket and a second mark, behind a directive on its line. -/
theorem parse_comment_night :
    parse ("INVERT\nDARK " ++ "%%" ++ " \"night [%%" ++ String.singleton '\n' ++ "T a")
      = parse ("INVERT\nDARK " ++ "%%" ++ "" ++ String.singleton '\n' ++ "T a") ∧
    parse ("INVERT" ++ String.singleton '&'
        ++ ("DARK " ++ "%%" ++ " \"night [%%" ++ String.singleton '\n' ++ "T a"))
      = parse ("INVERT" ++ String.singleton '&' ++ "T a") := by
  have hbody : Unbroken " \"night [%%" := by decide
  have hempty : Unbroken "" := by decide
  have hline : Unbroken "DARK " := by decide
  exact ⟨parse_comment.1 _ _ _ _ _ rfl hbody hempty,
    (parse_comment.2 _ _ _ _ rfl hbody hline).2 _ _ rfl⟩

/-- **A comment does not reach beyond `&`.** In a comment that goes on to the end of the written
line, a directive behind `&` is carried out. -/
theorem comment_ends_at_ampersand :
    ¬ ∀ p q body body' : String, (∀ c ∈ body.toList, c ≠ '\r' ∧ c ≠ '\n') →
      (∀ c ∈ body'.toList, c ≠ '\r' ∧ c ≠ '\n') →
      parse (p ++ "%%" ++ body ++ "\n" ++ q) = parse (p ++ "%%" ++ body' ++ "\n" ++ q) := by
  intro h
  have hplans := h "" "" "" "&INVERT" (by simp) (by simp)
  have hlengths : (parse "%%\n").directives.length = (parse "%%&INVERT\n").directives.length :=
    congrArg (fun plan => plan.directives.length) hplans
  exact absurd hlengths (by decide +kernel)

end Plan

end SceneCanvas.Script
