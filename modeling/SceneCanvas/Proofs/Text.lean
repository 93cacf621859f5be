import SceneCanvas.Text.Blank

/-!
# Trimming and splitting texts

A text that is trimmed loses white space at its ends and nothing else (`Text.exists_eq_trim`), and
blank characters at an end never matter to what is found by trimming (`Text.trim_blank_cons`,
`Text.trim_concat_blank`). Splitting a text at characters commutes with joining texts by such a
character (`Text.splitWhere_append_cons`), and at one character splitting and joining take each
other back (`Text.splitWhere_intercalate`, `Text.intercalate_splitWhere`).
-/

namespace SceneCanvas.Text

/-! ### White space at the ends -/

theorem trimStart_blank_cons {c : Char} (hc : isBlank c = true) (cs : List Char) :
    trimStart (c :: cs) = trimStart cs :=
  List.dropWhile_cons_of_pos hc

theorem trimEnd_concat_blank {c : Char} (hc : isBlank c = true) (cs : List Char) :
    trimEnd (cs ++ [c]) = trimEnd cs := by
  rw [trimEnd, List.reverse_append, List.reverse_singleton, List.singleton_append,
    List.dropWhile_cons_of_pos hc, trimEnd]

/-- Nothing but white space is at most added behind what trimming the start leaves. -/
theorem trimStart_concat_blank {c : Char} (hc : isBlank c = true) (cs : List Char) :
    trimStart (cs ++ [c]) = trimStart cs ++ [c] ∨
      trimStart (cs ++ [c]) = [] ∧ trimStart cs = [] := by
  rw [trimStart, List.dropWhile_append]
  split
  next h =>
    refine .inr ⟨?_, List.isEmpty_iff.mp h⟩
    rw [List.dropWhile_cons_of_pos hc, List.dropWhile_nil]
  next => exact .inl rfl

theorem trim_blank_cons {c : Char} (hc : isBlank c = true) (cs : List Char) :
    trim (c :: cs) = trim cs := by
  rw [trim, trimStart_blank_cons hc, trim]

theorem trim_concat_blank {c : Char} (hc : isBlank c = true) (cs : List Char) :
    trim (cs ++ [c]) = trim cs := by
  rw [trim, trim]
  rcases trimStart_concat_blank hc cs with h | ⟨h, hnil⟩
  · rw [h, trimEnd_concat_blank hc]
  · rw [h, hnil]

/-- A text is what trimming leaves of it, between white space. -/
theorem exists_eq_trim (cs : List Char) : ∃ before after,
    cs = before ++ trim cs ++ after ∧ allBlank before = true ∧ allBlank after = true := by
  refine ⟨cs.takeWhile isBlank, ((trimStart cs).reverse.takeWhile isBlank).reverse, ?_,
    List.all_takeWhile, ?_⟩
  · have hend : trim cs ++ ((trimStart cs).reverse.takeWhile isBlank).reverse = trimStart cs := by
      rw [trim, trimEnd, ← List.reverse_append, List.takeWhile_append_dropWhile,
        List.reverse_reverse]
    rw [List.append_assoc, hend, trimStart, List.takeWhile_append_dropWhile]
  · rw [allBlank, List.all_reverse]
    exact List.all_takeWhile

/-! ### Finding a text in another -/

theorem contains_iff_infix {cs sub : List Char} : contains cs sub = true ↔ sub <:+: cs := by
  induction cs with
  | nil => rw [contains, startsWith, List.isPrefixOf_iff_prefix, List.infix_nil, List.prefix_nil]
  | cons c cs ih =>
    rw [contains, startsWith, Bool.or_eq_true, List.isPrefixOf_iff_prefix, ih,
      List.infix_cons_iff]

/-- A character before a text is not part of an occurrence of something that it is not in. -/
theorem contains_cons_of_notMem {c : Char} (cs : List Char) {sub : List Char} (hsub : sub ≠ [])
    (hc : c ∉ sub) : contains (c :: cs) sub = contains cs sub := by
  rw [Bool.eq_iff_iff, contains_iff_infix, contains_iff_infix, List.infix_cons_iff,
    List.prefix_cons_iff]
  refine or_iff_right ?_
  rintro (hnil | ⟨rest, rfl, -⟩)
  · exact hsub hnil
  · exact hc List.mem_cons_self

/-- A character behind a text is not part of an occurrence of something that it is not in. -/
theorem contains_concat_of_notMem {c : Char} (cs : List Char) {sub : List Char} (hsub : sub ≠ [])
    (hc : c ∉ sub) : contains (cs ++ [c]) sub = contains cs sub := by
  rw [Bool.eq_iff_iff, contains_iff_infix, contains_iff_infix, List.infix_concat_iff,
    List.suffix_concat_iff]
  refine or_iff_right ?_
  rintro (hnil | ⟨rest, rfl, -⟩)
  · exact hsub hnil
  · exact hc (List.mem_append_right _ List.mem_cons_self)

/-- Characters before a text are not part of an occurrence of something that they are not in. -/
theorem contains_append_of_notMem {before sub : List Char} (cs : List Char) (hsub : sub ≠ [])
    (hbefore : ∀ c ∈ before, c ∉ sub) : contains (before ++ cs) sub = contains cs sub := by
  induction before with
  | nil => rfl
  | cons c before ih =>
    obtain ⟨hc, hbefore⟩ := List.forall_mem_cons.mp hbefore
    rw [List.cons_append, contains_cons_of_notMem _ hsub hc, ih hbefore]

/-- Characters behind a text are not part of an occurrence of something that they are not in. -/
theorem contains_append_of_notMem_right {after sub : List Char} (cs : List Char) (hsub : sub ≠ [])
    (hafter : ∀ c ∈ after, c ∉ sub) : contains (cs ++ after) sub = contains cs sub := by
  induction after generalizing cs with
  | nil => rw [List.append_nil]
  | cons c after ih =>
    obtain ⟨hc, hafter⟩ := List.forall_mem_cons.mp hafter
    rw [← List.singleton_append, ← List.append_assoc, ih _ hafter,
      contains_concat_of_notMem _ hsub hc]

/-! ### Splitting -/

variable {p : Char → Bool}

theorem splitWhere_cons_of_pos {c : Char} (hc : p c = true) (cs : List Char) :
    splitWhere p (c :: cs) = [] :: splitWhere p cs := by
  rw [splitWhere, if_pos hc]

theorem splitWhere_ne_nil (cs : List Char) : splitWhere p cs ≠ [] := by
  cases cs with
  | nil => exact List.cons_ne_nil _ _
  | cons c cs =>
    rw [splitWhere]
    split
    · exact List.cons_ne_nil _ _
    · split <;> exact List.cons_ne_nil _ _

/-- A character that is not split at belongs to the first piece. -/
theorem splitWhere_cons_of_neg {c : Char} (hc : p c = false) (cs : List Char) :
    ∃ piece pieces, splitWhere p cs = piece :: pieces ∧
      splitWhere p (c :: cs) = (c :: piece) :: pieces := by
  obtain ⟨piece, pieces, hpieces⟩ := List.exists_cons_of_ne_nil (splitWhere_ne_nil (p := p) cs)
  refine ⟨piece, pieces, hpieces, ?_⟩
  rw [splitWhere, hc, hpieces]
  rfl

/-- **Splitting commutes with joining** at a character that is split at. -/
theorem splitWhere_append_cons {s : Char} (hs : p s = true) (a b : List Char) :
    splitWhere p (a ++ s :: b) = splitWhere p a ++ splitWhere p b := by
  induction a with
  | nil => exact splitWhere_cons_of_pos hs b
  | cons c a ih =>
    cases hc : p c with
    | true =>
      rw [List.cons_append, splitWhere_cons_of_pos hc, splitWhere_cons_of_pos hc, ih,
        List.cons_append]
    | false =>
      obtain ⟨piece, pieces, ha, hca⟩ := splitWhere_cons_of_neg hc a
      rw [List.cons_append, splitWhere, hc, ih, ha, hca]
      rfl

/-- A text without such a character is one piece. -/
theorem splitWhere_eq_singleton {cs : List Char} (h : ∀ c ∈ cs, p c = false) :
    splitWhere p cs = [cs] := by
  induction cs with
  | nil => rfl
  | cons c cs ih =>
    rw [splitWhere, h c List.mem_cons_self, ih fun d hd => h d (List.mem_cons_of_mem _ hd)]
    rfl

/-- What is put behind a text belongs to its last piece, up to the next character that is split
at. -/
theorem exists_splitWhere_append (cs : List Char) : ∃ pieces piece,
    splitWhere p cs = pieces ++ [piece] ∧ ∀ tail, (∀ c ∈ tail, p c = false) →
      splitWhere p (cs ++ tail) = pieces ++ [piece ++ tail] := by
  induction cs with
  | nil =>
    refine ⟨[], [], rfl, fun tail htail => ?_⟩
    rw [List.nil_append, splitWhere_eq_singleton htail]
    rfl
  | cons d cs ih =>
    obtain ⟨pieces, piece, hcs, happend⟩ := ih
    cases hd : p d with
    | true =>
      refine ⟨[] :: pieces, piece, ?_, fun tail htail => ?_⟩
      · rw [splitWhere_cons_of_pos hd, hcs, List.cons_append]
      · rw [List.cons_append, splitWhere_cons_of_pos hd, happend tail htail, List.cons_append]
    | false =>
      cases pieces with
      | nil =>
        refine ⟨[], d :: piece, ?_, fun tail htail => ?_⟩
        · rw [splitWhere, hd, hcs]; rfl
        · rw [List.cons_append, splitWhere, hd, happend tail htail]; rfl
      | cons first pieces =>
        refine ⟨(d :: first) :: pieces, piece, ?_, fun tail htail => ?_⟩
        · rw [splitWhere, hd, hcs]; rfl
        · rw [List.cons_append, splitWhere, hd, happend tail htail]; rfl

/-- A character that is not split at, put behind a text, belongs to the last piece. -/
theorem splitWhere_concat_of_neg {c : Char} (hc : p c = false) (cs : List Char) :
    ∃ pieces piece, splitWhere p cs = pieces ++ [piece] ∧
      splitWhere p (cs ++ [c]) = pieces ++ [piece ++ [c]] := by
  obtain ⟨pieces, piece, hcs, happend⟩ := exists_splitWhere_append (p := p) cs
  exact ⟨pieces, piece, hcs, happend [c] (by simpa using hc)⟩

/-! ### Splitting and joining -/

/-- The pieces are made up of the characters that are not split at. -/
theorem of_mem_splitWhere {cs piece : List Char} (h : piece ∈ splitWhere p cs) :
    ∀ c ∈ piece, c ∈ cs ∧ p c = false := by
  induction cs generalizing piece with
  | nil =>
    rw [splitWhere, List.mem_singleton] at h
    subst h
    exact fun c hc => absurd hc List.not_mem_nil
  | cons d cs ih =>
    have htail {piece : List Char} (h : piece ∈ splitWhere p cs) :
        ∀ c ∈ piece, c ∈ d :: cs ∧ p c = false := fun c hc =>
      ⟨List.mem_cons_of_mem d (ih h c hc).1, (ih h c hc).2⟩
    cases hd : p d with
    | true =>
      rw [splitWhere_cons_of_pos hd, List.mem_cons] at h
      obtain rfl | h := h
      · exact fun c hc => absurd hc List.not_mem_nil
      · exact htail h
    | false =>
      obtain ⟨first, pieces, hcs, hdcs⟩ := splitWhere_cons_of_neg hd cs
      rw [hcs] at htail
      rw [hdcs, List.mem_cons] at h
      obtain rfl | h := h
      · rw [List.forall_mem_cons]
        exact ⟨⟨List.mem_cons_self, hd⟩, htail List.mem_cons_self⟩
      · exact htail (List.mem_cons_of_mem first h)

/-- **Splitting takes joining back**, if no piece holds a character that is split at. -/
theorem splitWhere_intercalate {s : Char} (hs : p s = true) {pieces : List (List Char)}
    (hne : pieces ≠ []) (h : ∀ piece ∈ pieces, ∀ c ∈ piece, p c = false) :
    splitWhere p ([s].intercalate pieces) = pieces := by
  induction pieces with
  | nil => exact absurd rfl hne
  | cons piece pieces ih =>
    obtain ⟨hpiece, hpieces⟩ := List.forall_mem_cons.mp h
    cases pieces with
    | nil => rw [List.intercalate_singleton, splitWhere_eq_singleton hpiece]
    | cons piece' pieces =>
      rw [List.intercalate_cons_cons, List.append_assoc, List.singleton_append,
        splitWhere_append_cons hs, splitWhere_eq_singleton hpiece,
        ih (List.cons_ne_nil _ _) hpieces, List.singleton_append]

/-- **Joining takes splitting back**, at one character. -/
theorem intercalate_splitWhere (s : Char) (cs : List Char) :
    [s].intercalate (splitWhere (· == s) cs) = cs := by
  induction cs with
  | nil => rw [splitWhere, List.intercalate_singleton]
  | cons c cs ih =>
    cases hc : c == s with
    | true =>
      obtain ⟨piece, pieces, hcs⟩ :=
        List.exists_cons_of_ne_nil (splitWhere_ne_nil (p := (· == s)) cs)
      rw [hcs] at ih
      rw [splitWhere_cons_of_pos (p := (· == s)) hc, hcs, List.intercalate_cons_cons, ih,
        beq_iff_eq.mp hc]
      rfl
    | false =>
      obtain ⟨piece, pieces, hcs, hccs⟩ := splitWhere_cons_of_neg (p := (· == s)) hc cs
      rw [hcs] at ih
      rw [hccs, ← ih]
      cases pieces with
      | nil => rw [List.intercalate_singleton, List.intercalate_singleton]
      | cons piece' pieces =>
        rw [List.intercalate_cons_cons, List.intercalate_cons_cons]
        rfl

/-- Joined lists of pieces are joined in turn. -/
theorem intercalate_append (s : Char) {pieces pieces' : List (List Char)} (h : pieces ≠ [])
    (h' : pieces' ≠ []) :
    [s].intercalate (pieces ++ pieces') = [s].intercalate pieces ++ s :: [s].intercalate pieces' := by
  induction pieces with
  | nil => exact absurd rfl h
  | cons piece pieces ih =>
    cases pieces with
    | nil =>
      obtain ⟨piece', pieces', rfl⟩ := List.exists_cons_of_ne_nil h'
      rw [List.singleton_append, List.intercalate_cons_cons, List.intercalate_singleton,
        List.append_assoc, List.singleton_append]
    | cons second pieces =>
      rw [List.cons_append, List.cons_append, List.intercalate_cons_cons, ← List.cons_append,
        ih (List.cons_ne_nil _ _), List.intercalate_cons_cons, List.append_assoc (piece ++ [s])]

end SceneCanvas.Text
