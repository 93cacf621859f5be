import SceneCanvas.Script.Line
import SceneCanvas.Proofs.Text

/-!
# The grammar of a line

A line is white space and pieces in turn, and a piece is read off at its first character: a quoted
piece and a bracketed one end at the first closing delimiter, provided there is something before
it, and any other piece runs to the next white space. `Script.Reads` says what a piece is and
`Script.Decomposes` how a line is cut, both without regard to how tokens are found.

* Every line has exactly one decomposition, and its tokens are the ones found
  (`Script.exists_decomposes`, `Script.Decomposes.unique`, `Script.Decomposes.tokens_eq`).
* Every token is an argument, an option, or dropped (`Script.Line.accountsFor_ofTokens`).
* `Script.tokenize_grammar` puts this together with the reading of quoted words and of trimmed
  lines.
-/

namespace SceneCanvas.Script

open Text

/-! ### Pieces -/

/-- The text starts with a body between two delimiters: the body is not empty, and the closing
delimiter is the first one of its kind. -/
structure Encloses (opening close : Char) (text body rest : List Char) : Prop where
  text_eq : text = opening :: (body ++ close :: rest)
  body_ne_nil : body ≠ []
  notMem_body : close ∉ body

/-- What can be read at the start of a text: a piece, its token, and the text after the piece. -/
inductive Reads : (text piece token rest : List Char) → Prop where
  | quoted {text body rest : List Char} (h : Encloses '"' '"' text body rest) :
      Reads text ('"' :: (body ++ ['"'])) body rest
  | bracketed {text body rest : List Char} (h : Encloses '[' ']' text body rest) :
      Reads text ('[' :: (body ++ [']'])) ('[' :: (body ++ [']'])) rest
  /-- A longest run without white space, where neither delimiter opens anything. -/
  | plain {run rest : List Char} (hne : run ≠ []) (hrun : ∀ c ∈ run, isBlank c = false)
      (hrest : ∀ c ∈ rest.head?, isBlank c = true)
      (hquoted : ∀ body rest', ¬ Encloses '"' '"' (run ++ rest) body rest')
      (hbracketed : ∀ body rest', ¬ Encloses '[' ']' (run ++ rest) body rest') :
      Reads (run ++ rest) run run rest

/-- A piece with the white space before it and the token that it stands for. -/
structure Cut where
  gap : List Char
  piece : List Char
  token : List Char
deriving Repr, DecidableEq

/-- A line is cut from left to right into gaps of white space and pieces, with a gap at the end. -/
inductive Decomposes : (line : List Char) → (cuts : List Cut) → (last : List Char) → Prop where
  | gap {last : List Char} (hlast : allBlank last = true) : Decomposes last [] last
  | cut {gap text piece token rest last : List Char} {cuts : List Cut}
      (hgap : allBlank gap = true) (hpiece : Reads text piece token rest)
      (hrest : Decomposes rest cuts last) :
      Decomposes (gap ++ text) (⟨gap, piece, token⟩ :: cuts) last

/-! ### Finding the end of a piece -/

/-- The search for a closing delimiter finds the first one, if there is something before it. -/
theorem delimited_eq_some_iff {close : Char} {cs body rest : List Char} :
    delimited close cs = some (body, rest) ↔
      cs = body ++ close :: rest ∧ body ≠ [] ∧ close ∉ body := by
  constructor
  · intro h
    have hsplit := List.takeWhile_append_dropWhile (p := (· != close)) (l := cs)
    unfold delimited at h
    split at h
    next c body' d rest' htake hdrop =>
      obtain ⟨rfl, rfl⟩ := Prod.mk.inj (Option.some.inj h)
      have hclose : d = close := by
        have hhead := List.head_dropWhile_not (· != close) (l := cs) (by simp [hdrop])
        simpa [hdrop] using hhead
      have hbody : close ∉ c :: body' := fun hmem => by
        have hall := List.all_eq_true.mp (List.all_takeWhile (p := (· != close)) (l := cs))
        simpa using hall close (htake ▸ hmem)
      rw [htake, hdrop, hclose] at hsplit
      exact ⟨hsplit.symm, List.cons_ne_nil _ _, hbody⟩
    next => cases h
  · rintro ⟨rfl, hne, hbody⟩
    have hall : ∀ c ∈ body, (c != close) = true := fun c hc =>
      bne_iff_ne.mpr fun heq => hbody (heq ▸ hc)
    obtain ⟨c, body, rfl⟩ := List.exists_cons_of_ne_nil hne
    rw [delimited, List.takeWhile_append_of_pos hall, List.dropWhile_append_of_pos hall]
    simp

theorem encloses_cons_iff {opening close c : Char} {cs body rest : List Char} :
    Encloses opening close (c :: cs) body rest ↔
      c = opening ∧ delimited close cs = some (body, rest) := by
  rw [delimited_eq_some_iff]
  constructor
  · rintro ⟨htext, hne, hbody⟩
    obtain ⟨rfl, rfl⟩ := List.cons.inj htext
    exact ⟨rfl, rfl, hne, hbody⟩
  · rintro ⟨rfl, rfl, hne, hbody⟩
    exact ⟨rfl, hne, hbody⟩

/-- A text without a closing delimiter makes no difference behind the one that is searched. -/
theorem delimited_append {close : Char} {after : List Char} (hafter : close ∉ after)
    (cs : List Char) :
    delimited close (cs ++ after) = (delimited close cs).map fun p => (p.1, p.2 ++ after) := by
  cases hcs : delimited close cs with
  | some p =>
    obtain ⟨rfl, hne, hbody⟩ := delimited_eq_some_iff.mp hcs
    exact delimited_eq_some_iff.mpr ⟨by simp, hne, hbody⟩
  | none =>
    refine Option.eq_none_iff_forall_ne_some.mpr fun p hp => ?_
    obtain ⟨heq, hne, hbody⟩ := delimited_eq_some_iff.mp hp
    -- the delimiter that was found is in the text searched before
    obtain ⟨rest, hrest⟩ : ∃ rest, cs = p.1 ++ close :: rest := by
      rcases List.append_eq_append_iff.mp heq with ⟨more, hmore, hafter'⟩ | ⟨more, hmore, hafter'⟩
      · exact absurd (hafter' ▸ List.mem_append_right _ List.mem_cons_self) hafter
      · cases more with
        | nil => exact absurd (show close ∈ [] ++ after from hafter' ▸ List.mem_cons_self) hafter
        | cons d more =>
          obtain ⟨rfl, -⟩ := List.cons.inj hafter'
          exact ⟨more, hmore⟩
    have hsome := delimited_eq_some_iff.mpr ⟨hrest, hne, hbody⟩
    rw [hcs] at hsome
    cases hsome

/-! ### Taking one token -/

theorem takeToken_of_quoted {c : Char} {cs body rest : List Char}
    (h : Encloses '"' '"' (c :: cs) body rest) : takeToken c cs = (body, rest) := by
  obtain ⟨rfl, hfound⟩ := encloses_cons_iff.mp h
  rw [takeToken, if_pos rfl, hfound, Option.getD_some]

theorem takeToken_of_bracketed {c : Char} {cs body rest : List Char}
    (h : Encloses '[' ']' (c :: cs) body rest) :
    takeToken c cs = ('[' :: (body ++ [']']), rest) := by
  obtain ⟨rfl, hfound⟩ := encloses_cons_iff.mp h
  rw [takeToken, if_neg (by decide), if_pos rfl, hfound]

theorem takeToken_of_plain {c : Char} {cs : List Char}
    (hquoted : ∀ body rest, ¬ Encloses '"' '"' (c :: cs) body rest)
    (hbracketed : ∀ body rest, ¬ Encloses '[' ']' (c :: cs) body rest) :
    takeToken c cs = (c :: cs.takeWhile (!isBlank ·), cs.dropWhile (!isBlank ·)) := by
  have hnone {opening close : Char} (h : ∀ body rest, ¬ Encloses opening close (c :: cs) body rest)
      (hc : c = opening) : delimited close cs = none :=
    Option.eq_none_iff_forall_ne_some.mpr fun p hp => h p.1 p.2 (encloses_cons_iff.mpr ⟨hc, hp⟩)
  rw [takeToken]
  split
  next hc => rw [hnone hquoted hc, Option.getD_none]
  next =>
    split
    next hc => rw [hnone hbracketed hc]
    next => rfl

namespace Reads

variable {text piece token rest : List Char}

theorem text_eq (h : Reads text piece token rest) : text = piece ++ rest := by
  cases h with
  | quoted h => rw [h.text_eq]; simp
  | bracketed h => rw [h.text_eq]; simp
  | plain => rfl

/-- A piece starts with a character that is not white space. -/
theorem exists_cons (h : Reads text piece token rest) :
    ∃ c cs, text = c :: cs ∧ isBlank c = false := by
  cases h with
  | quoted h => exact ⟨_, _, h.text_eq, by decide⟩
  | bracketed h => exact ⟨_, _, h.text_eq, by decide⟩
  | plain hne hrun =>
    obtain ⟨c, run, rfl⟩ := List.exists_cons_of_ne_nil hne
    exact ⟨c, _, rfl, hrun c List.mem_cons_self⟩

/-- What can be read is what is taken. -/
theorem takeToken_eq {c : Char} {cs : List Char} (h : Reads (c :: cs) piece token rest) :
    takeToken c cs = (token, rest) := by
  generalize htext : c :: cs = text at h
  cases h with
  | quoted h => exact takeToken_of_quoted (htext ▸ h)
  | bracketed h => exact takeToken_of_bracketed (htext ▸ h)
  | plain hne hrun hrest hquoted hbracketed =>
    rw [← htext] at hquoted hbracketed
    obtain ⟨d, run, rfl⟩ := List.exists_cons_of_ne_nil hne
    obtain ⟨rfl, rfl⟩ : c = d ∧ cs = run ++ rest := List.cons.inj htext
    have hall : ∀ c ∈ run, (!isBlank c) = true := fun c hc => by
      rw [hrun c (List.mem_cons_of_mem _ hc)]; rfl
    rw [takeToken_of_plain hquoted hbracketed, List.takeWhile_append_of_pos hall,
      List.dropWhile_append_of_pos hall]
    -- the run ends where white space or the end of the line is
    cases rest with
    | nil => simp
    | cons d rest =>
      have hd : isBlank d = true := hrest d rfl
      simp [hd]

end Reads

/-- Something can be read at every character that is not white space. -/
theorem exists_reads {c : Char} (hc : isBlank c = false) (cs : List Char) :
    ∃ piece, Reads (c :: cs) piece (takeToken c cs).1 (takeToken c cs).2 := by
  by_cases hquoted : ∃ body rest, Encloses '"' '"' (c :: cs) body rest
  · obtain ⟨body, rest, h⟩ := hquoted
    rw [takeToken_of_quoted h]
    exact ⟨_, .quoted h⟩
  by_cases hbracketed : ∃ body rest, Encloses '[' ']' (c :: cs) body rest
  · obtain ⟨body, rest, h⟩ := hbracketed
    rw [takeToken_of_bracketed h]
    exact ⟨_, .bracketed h⟩
  have hquoted : ∀ body rest, ¬ Encloses '"' '"' (c :: cs) body rest := fun body rest h =>
    hquoted ⟨body, rest, h⟩
  have hbracketed : ∀ body rest, ¬ Encloses '[' ']' (c :: cs) body rest := fun body rest h =>
    hbracketed ⟨body, rest, h⟩
  have htext : c :: cs = (c :: cs.takeWhile (!isBlank ·)) ++ cs.dropWhile (!isBlank ·) := by
    rw [List.cons_append, List.takeWhile_append_dropWhile]
  rw [takeToken_of_plain hquoted hbracketed]
  refine ⟨c :: cs.takeWhile (!isBlank ·), ?_⟩
  rw [htext] at hquoted hbracketed
  have hplain : Reads ((c :: cs.takeWhile (!isBlank ·)) ++ cs.dropWhile (!isBlank ·))
      (c :: cs.takeWhile (!isBlank ·)) (c :: cs.takeWhile (!isBlank ·))
      (cs.dropWhile (!isBlank ·)) := by
    refine .plain (List.cons_ne_nil _ _) (fun d hd => ?_) (fun d hd => ?_) hquoted hbracketed
    · rcases List.mem_cons.mp hd with rfl | hd
      · exact hc
      · have hall := List.all_eq_true.mp (List.all_takeWhile (p := (!isBlank ·)) (l := cs))
        simpa using hall d hd
    · have hhead := List.head?_dropWhile_not (!isBlank ·) cs
      rw [hd] at hhead
      simpa using hhead
  rwa [← htext] at hplain

/-! ### Cutting a whole line -/

theorem tokens_blank_append {gap : List Char} (hgap : allBlank gap = true) (text : List Char) :
    tokens (gap ++ text) = tokens text := by
  induction gap with
  | nil => rfl
  | cons c gap ih =>
    rw [allBlank, List.all_cons, Bool.and_eq_true] at hgap
    rw [List.cons_append, tokens, if_pos hgap.1, ih hgap.2]

theorem tokens_of_allBlank {gap : List Char} (hgap : allBlank gap = true) : tokens gap = [] := by
  rw [← List.append_nil gap, tokens_blank_append hgap, tokens]

/-- White space before a text that starts with something else is known from the whole. -/
theorem append_inj_of_blank {gap gap' cs cs' : List Char} {c c' : Char}
    (hgap : allBlank gap = true) (hgap' : allBlank gap' = true) (hc : isBlank c = false)
    (hc' : isBlank c' = false) (h : gap ++ c :: cs = gap' ++ c' :: cs') :
    gap = gap' ∧ c :: cs = c' :: cs' := by
  have htake {gap cs : List Char} {c : Char} (hgap : allBlank gap = true)
      (hc : isBlank c = false) : (gap ++ c :: cs).takeWhile isBlank = gap := by
    rw [List.takeWhile_append_of_pos (List.all_eq_true.mp hgap)]
    simp [hc]
  have heq : gap = gap' := by
    rw [← htake hgap hc, h, htake hgap' hc']
  subst heq
  exact ⟨rfl, List.append_cancel_left h⟩

namespace Decomposes

variable {line last last' : List Char} {cuts cuts' : List Cut}

/-- The gaps and pieces of a line make up the line. -/
theorem line_eq (h : Decomposes line cuts last) :
    line = cuts.flatMap (fun cut => cut.gap ++ cut.piece) ++ last := by
  induction h with
  | gap => rfl
  | cut _ hpiece _ ih =>
    rw [hpiece.text_eq, List.flatMap_cons, List.append_assoc, List.append_assoc, ← ih]

/-- **The tokens of a line** are the tokens of its pieces, however it has been cut. -/
theorem tokens_eq (h : Decomposes line cuts last) : tokens line = cuts.map Cut.token := by
  induction h with
  | gap hlast => rw [tokens_of_allBlank hlast, List.map_nil]
  | cut hgap hpiece _ ih =>
    obtain ⟨c, cs, rfl, hc⟩ := hpiece.exists_cons
    rw [tokens_blank_append hgap, tokens, hc, if_neg Bool.false_ne_true, hpiece.takeToken_eq, ih,
      List.map_cons]

/-- A line is cut in one way only. -/
theorem unique (h : Decomposes line cuts last) (h' : Decomposes line cuts' last') :
    cuts' = cuts ∧ last' = last := by
  induction h generalizing cuts' with
  | @gap last hlast =>
    cases h' with
    | gap => exact ⟨rfl, rfl⟩
    | cut _ hpiece =>
      obtain ⟨c, cs, rfl, hc⟩ := hpiece.exists_cons
      rw [allBlank, List.all_append, List.all_cons, hc] at hlast
      simp at hlast
  | @cut gap text piece token rest last cuts hgap hpiece hrest ih =>
    obtain ⟨c, cs, rfl, hc⟩ := hpiece.exists_cons
    generalize hline : gap ++ c :: cs = line at h'
    cases h' with
    | gap hlast =>
      rw [← hline, allBlank, List.all_append, List.all_cons, hc] at hlast
      simp at hlast
    | cut hgap' hpiece' hrest' =>
      obtain ⟨c', cs', rfl, hc'⟩ := hpiece'.exists_cons
      -- the gap ends at the first character that is not blank, and the rest is read off there
      obtain ⟨rfl, htext⟩ := append_inj_of_blank hgap hgap' hc hc' hline
      rw [← htext] at hpiece'
      have htaken := hpiece.takeToken_eq.symm.trans hpiece'.takeToken_eq
      obtain ⟨rfl, rfl⟩ := Prod.mk.inj htaken
      obtain rfl := List.append_cancel_right (hpiece.text_eq.symm.trans hpiece'.text_eq)
      obtain ⟨rfl, rfl⟩ := ih hrest'
      exact ⟨rfl, rfl⟩

end Decomposes

/-- Every line can be cut. -/
theorem exists_decomposes (line : List Char) : ∃ cuts last, Decomposes line cuts last := by
  fun_induction tokens line with
  | case1 => exact ⟨[], [], .gap rfl⟩
  | case2 c cs hc ih =>
    -- white space belongs to the first gap
    obtain ⟨cuts, last, h⟩ := ih
    cases h with
    | gap hlast => exact ⟨[], c :: cs, .gap (by rw [allBlank, List.all_cons, hc]; exact hlast)⟩
    | @cut gap _ _ _ _ _ _ hgap hpiece hrest =>
      have hgap : allBlank (c :: gap) = true := by rw [allBlank, List.all_cons, hc]; exact hgap
      exact ⟨_, _, .cut hgap hpiece hrest⟩
  | case3 c cs hc ih =>
    obtain ⟨cuts, last, hrest⟩ := ih
    obtain ⟨piece, hpiece⟩ := exists_reads (Bool.eq_false_iff.mpr hc) cs
    have hgap : allBlank [] = true := rfl
    exact ⟨_, last, .cut hgap hpiece hrest⟩

/-! ### White space at the ends, and words in quotes -/

theorem notMem_of_allBlank {c : Char} {gap : List Char} (hgap : allBlank gap = true)
    (hc : isBlank c = false) : c ∉ gap := fun h =>
  Bool.false_ne_true (hc.symm.trans (List.all_eq_true.mp hgap c h))

/-- White space behind a text encloses nothing new. -/
theorem Encloses.of_append_blank {opening close c : Char} {cs after body rest : List Char}
    (hafter : allBlank after = true) (hclose : isBlank close = false)
    (h : Encloses opening close (c :: cs ++ after) body rest) :
    ∃ rest', Encloses opening close (c :: cs) body rest' := by
  rw [List.cons_append] at h
  obtain ⟨hc, hfound⟩ := encloses_cons_iff.mp h
  rw [delimited_append (notMem_of_allBlank hafter hclose), Option.map_eq_some_iff] at hfound
  obtain ⟨⟨body, rest'⟩, hfound, heq⟩ := hfound
  cases heq
  exact ⟨rest', encloses_cons_iff.mpr ⟨hc, hfound⟩⟩

/-- White space behind a text is behind what is read at its start. -/
theorem Reads.append_blank {text piece token rest after : List Char}
    (h : Reads text piece token rest) (hafter : allBlank after = true) :
    Reads (text ++ after) piece token (rest ++ after) := by
  cases h with
  | quoted h => exact .quoted ⟨by simp [h.text_eq], h.body_ne_nil, h.notMem_body⟩
  | bracketed h => exact .bracketed ⟨by simp [h.text_eq], h.body_ne_nil, h.notMem_body⟩
  | plain hne hrun hrest hquoted hbracketed =>
    rw [List.append_assoc]
    obtain ⟨c, run, rfl⟩ := List.exists_cons_of_ne_nil hne
    refine .plain hne hrun (fun d hd => ?_) (fun body rest' h => ?_) (fun body rest' h => ?_)
    · rw [List.head?_append] at hd
      rcases Option.or_eq_some_iff.mp hd with hd | ⟨-, hd⟩
      · exact hrest d hd
      · exact List.all_eq_true.mp hafter d (List.mem_of_head? hd)
    · rw [← List.append_assoc] at h
      obtain ⟨_, h⟩ := Encloses.of_append_blank hafter (by decide) h
      exact hquoted _ _ h
    · rw [← List.append_assoc] at h
      obtain ⟨_, h⟩ := Encloses.of_append_blank hafter (by decide) h
      exact hbracketed _ _ h

theorem Decomposes.append_blank {line last after : List Char} {cuts : List Cut}
    (h : Decomposes line cuts last) (hafter : allBlank after = true) :
    Decomposes (line ++ after) cuts (last ++ after) := by
  induction h with
  | gap hlast =>
    refine .gap ?_
    rw [allBlank, List.all_append]
    exact Bool.and_eq_true_iff.mpr ⟨hlast, hafter⟩
  | cut hgap hpiece _ ih =>
    rw [List.append_assoc]
    exact .cut hgap (hpiece.append_blank hafter) ih

/-- **Trimming a line** does not change its tokens. -/
theorem tokens_trim (line : List Char) : tokens (trim line) = tokens line := by
  obtain ⟨before, after, hline, hbefore, hafter⟩ := exists_eq_trim line
  obtain ⟨cuts, last, h⟩ := exists_decomposes (trim line)
  calc tokens (trim line)
    _ = tokens (trim line ++ after) := by rw [h.tokens_eq, (h.append_blank hafter).tokens_eq]
    _ = tokens (before ++ (trim line ++ after)) := (tokens_blank_append hbefore _).symm
    _ = tokens line := by rw [← List.append_assoc, ← hline]

/-- A word between quotes. -/
def inQuotes (word : List Char) : List Char := '"' :: (word ++ ['"'])

/-- Words in quotes, each behind some white space or none, are cut at their quotes. -/
theorem decomposes_inQuotes {parts : List (List Char × List Char)} {last : List Char}
    (hparts : ∀ part ∈ parts, allBlank part.1 = true ∧ part.2 ≠ [] ∧ '"' ∉ part.2)
    (hlast : allBlank last = true) :
    Decomposes (parts.flatMap (fun part => part.1 ++ inQuotes part.2) ++ last)
      (parts.map fun part => ⟨part.1, inQuotes part.2, part.2⟩) last := by
  induction parts with
  | nil => exact .gap hlast
  | cons part parts ih =>
    obtain ⟨⟨hgap, hne, hword⟩, hparts⟩ := List.forall_mem_cons.mp hparts
    rw [List.flatMap_cons, List.append_assoc, List.append_assoc]
    exact .cut hgap (.quoted ⟨by simp [inQuotes], hne, hword⟩) (ih hparts)

/-! ### Arguments and options -/

namespace Line

/-- A token is cut at its first colon. -/
theorem splitOption_eq_some_iff {token key value : List Char} :
    splitOption token = some (key, value) ↔ token = key ++ ':' :: value ∧ ':' ∉ key := by
  constructor
  · intro h
    have hsplit := List.takeWhile_append_dropWhile (p := (· != ':')) (l := token)
    unfold splitOption at h
    split at h
    next c value' hdrop =>
      obtain ⟨rfl, rfl⟩ := Prod.mk.inj (Option.some.inj h)
      have hcolon : c = ':' := by
        have hhead := List.head_dropWhile_not (· != ':') (l := token) (by simp [hdrop])
        simpa [hdrop] using hhead
      refine ⟨?_, fun hmem => ?_⟩
      · rw [hdrop, hcolon] at hsplit
        exact hsplit.symm
      · have hall := List.all_eq_true.mp (List.all_takeWhile (p := (· != ':')) (l := token))
        simpa using hall ':' hmem
    next => cases h
  · rintro ⟨rfl, hkey⟩
    have hall : ∀ c ∈ key, (c != ':') = true := fun c hc =>
      bne_iff_ne.mpr fun heq => hkey (heq ▸ hc)
    rw [splitOption, List.takeWhile_append_of_pos hall, List.dropWhile_append_of_pos hall]
    simp

theorem splitOption_eq_none_iff {token : List Char} :
    splitOption token = none ↔ ':' ∉ token := by
  constructor
  · intro h hmem
    obtain ⟨key, value, rfl, hkey⟩ := List.eq_append_cons_of_mem hmem
    rw [splitOption_eq_some_iff.mpr ⟨rfl, hkey⟩] at h
    cases h
  · intro h
    refine Option.eq_none_iff_forall_ne_some.mpr fun p hp => h ?_
    rw [(splitOption_eq_some_iff.mp hp).1]
    exact List.mem_append_right _ List.mem_cons_self

/-- The last of some tokens that sets `key` sets it to `value`. -/
def IsLastOption (tokens : List (List Char)) (key value : List Char) : Prop :=
  ∃ before after, tokens = before ++ (key ++ ':' :: value) :: after ∧
    ∀ value', key ++ ':' :: value' ∉ after

theorem isLastOption_concat_iff {tokens : List (List Char)} {token key value : List Char} :
    IsLastOption (tokens ++ [token]) key value ↔
      token = key ++ ':' :: value ∨
        (∀ value', token ≠ key ++ ':' :: value') ∧ IsLastOption tokens key value := by
  constructor
  · rintro ⟨before, after, heq, hafter⟩
    rcases List.eq_nil_or_concat after with rfl | ⟨after, last, rfl⟩
    · obtain ⟨-, hlast⟩ := List.append_inj' heq rfl
      exact .inl (List.singleton_inj.mp hlast)
    · rw [List.concat_eq_append] at heq hafter
      rw [← List.cons_append, ← List.append_assoc] at heq
      obtain ⟨hinit, hlast⟩ := List.append_inj' heq rfl
      obtain rfl := List.singleton_inj.mp hlast
      refine .inr ⟨fun value' h => hafter value' ?_, before, after, hinit, fun value' h => ?_⟩
      · rw [← h]
        exact List.mem_append_right _ List.mem_cons_self
      · exact hafter value' (List.mem_append_left _ h)
  · rintro (rfl | ⟨hne, before, after, rfl, hafter⟩)
    · exact ⟨tokens, [], rfl, fun _ h => nomatch h⟩
    · refine ⟨before, after ++ [token], by simp, fun value' h => ?_⟩
      rcases List.mem_append.mp h with h | h
      · exact hafter value' h
      · exact hne value' (List.mem_singleton.mp h).symm

theorem isLastOption_concat_of_ne {tokens : List (List Char)} {token key : List Char}
    (hne : ∀ value, token ≠ key ++ ':' :: value) (value : List Char) :
    IsLastOption (tokens ++ [token]) key value ↔ IsLastOption tokens key value := by
  rw [isLastOption_concat_iff, or_iff_right (hne value), and_iff_right hne]

theorem isLastOption_concat_self {tokens : List (List Char)} {key value value' : List Char} :
    IsLastOption (tokens ++ [key ++ ':' :: value']) key value ↔ value' = value := by
  rw [isLastOption_concat_iff, or_iff_left fun h => h.1 value' rfl]
  simp

/-- A line accounts for tokens when each of them is an argument, has set an option, has been
replaced as an option, or has nothing before its first colon. -/
structure AccountsFor (line : Line) (tokens : List (List Char)) : Prop where
  /-- The tokens without a colon are the arguments, in their order. -/
  args_eq : line.args = (tokens.filter (':' ∉ ·)).map String.ofList
  keys_nodup : (line.options.map Prod.fst).Nodup
  /-- An option has the value that the last of its tokens gives it, behind the first colon. -/
  option?_eq_some_iff : ∀ key value : List Char,
    line.option? (String.ofList key) = some (String.ofList value) ↔
      (key ≠ [] ∧ ':' ∉ key) ∧ IsLastOption tokens key value

theorem append_colon_inj {key key' value value' : List Char} (hkey : ':' ∉ key)
    (hkey' : ':' ∉ key') (h : key ++ ':' :: value = key' ++ ':' :: value') :
    key = key' ∧ value = value' := by
  have hsplit : splitOption (key ++ ':' :: value) = some (key, value) :=
    splitOption_eq_some_iff.mpr ⟨rfl, hkey⟩
  rw [splitOption_eq_some_iff.mpr ⟨h, hkey'⟩] at hsplit
  obtain ⟨rfl, rfl⟩ := Prod.mk.inj (Option.some.inj hsplit)
  exact ⟨rfl, rfl⟩

theorem append_colon_ne {key key' : List Char} (hkey : ':' ∉ key) (hkey' : ':' ∉ key')
    (hne : key' ≠ key) (value value' : List Char) : key ++ ':' :: value ≠ key' ++ ':' :: value' :=
  fun heq => hne (append_colon_inj hkey hkey' heq).1.symm

/-- What an option is set to after one more option has been set. -/
theorem lookup_filter_append (options : List (String × String)) (key value key' : String) :
    (options.filter (·.1 != key) ++ [(key, value)]).lookup key'
      = if key' = key then some value else options.lookup key' := by
  rw [List.lookup_append, List.lookup_cons, List.lookup_nil]
  by_cases hkey : key' = key
  · subst hkey
    have hnone : (options.filter (·.1 != key')).lookup key' = none :=
      List.lookup_eq_none_iff.mpr fun p hp => bne_comm.trans (List.mem_filter.mp hp).2
    simp [hnone]
  · have hbeq : (key' == key) = false := beq_eq_false_iff_ne.mpr hkey
    have hlookup : (options.filter (·.1 != key)).lookup key' = options.lookup key' := by
      induction options with
      | nil => rfl
      | cons option options ih =>
        obtain ⟨first, second⟩ := option
        by_cases hfirst : first = key
        · subst hfirst
          simp [List.lookup_cons, ih, hbeq]
        · simp [List.lookup_cons, ih, hfirst]
    rw [hlookup, hbeq, if_neg hkey, Option.or_none]

theorem nodup_keys_filter_append {options : List (String × String)}
    (h : (options.map Prod.fst).Nodup) (key value : String) :
    ((options.filter (·.1 != key) ++ [(key, value)]).map Prod.fst).Nodup := by
  rw [List.map_append, List.nodup_append]
  refine ⟨h.sublist (List.filter_sublist.map Prod.fst), by simp,
    fun first hfirst last hlast heq => ?_⟩
  obtain ⟨option, hoption, rfl⟩ := List.mem_map.mp hfirst
  have hne := (List.mem_filter.mp hoption).2
  rw [heq, List.mem_singleton.mp hlast] at hne
  simp at hne

/-! ### Adding a token -/

theorem args_add (line : Line) (token : List Char) :
    (line.add token).args = line.args ++ ([token].filter (':' ∉ ·)).map String.ofList := by
  rw [add]
  split
  next hnone => simp [splitOption_eq_none_iff.mp hnone]
  next hsome => simp [(splitOption_eq_some_iff.mp hsome).1]
  next hsome => simp [(splitOption_eq_some_iff.mp hsome).1]

theorem nodup_keys_add {line : Line} (h : (line.options.map Prod.fst).Nodup)
    (token : List Char) : ((line.add token).options.map Prod.fst).Nodup := by
  rw [add]
  split
  · exact h
  · exact h
  · exact nodup_keys_filter_append h _ _

namespace AccountsFor

variable {line : Line} {tokens : List (List Char)}

theorem empty : AccountsFor {} [] where
  args_eq := rfl
  keys_nodup := List.nodup_nil
  option?_eq_some_iff key value := by
    constructor
    · exact fun h => nomatch h
    · rintro ⟨-, before, after, h, -⟩
      simp at h

/-- One more token sets the option that it names, if it names one. -/
theorem option?_add_eq_some_iff (h : line.AccountsFor tokens) (token key value : List Char) :
    (line.add token).option? (String.ofList key) = some (String.ofList value) ↔
      (key ≠ [] ∧ ':' ∉ key) ∧ IsLastOption (tokens ++ [token]) key value := by
  rw [Line.add]
  split
  next hnone =>
    -- an argument
    have hne (value' : List Char) : token ≠ key ++ ':' :: value' := fun heq =>
      splitOption_eq_none_iff.mp hnone (heq ▸ List.mem_append_right _ List.mem_cons_self)
    rw [isLastOption_concat_of_ne hne]
    exact h.option?_eq_some_iff key value
  next value' hsome =>
    -- a token that starts with a colon
    obtain ⟨rfl, hempty⟩ := splitOption_eq_some_iff.mp hsome
    rw [h.option?_eq_some_iff]
    refine and_congr_right fun ⟨hne, hcolon⟩ => ?_
    rw [isLastOption_concat_of_ne (append_colon_ne hempty hcolon hne value')]
  next key' value' hempty hsome =>
    -- an option
    obtain ⟨rfl, hcolon'⟩ := splitOption_eq_some_iff.mp hsome
    rw [Line.option?, lookup_filter_append]
    by_cases hkey : key = key'
    · subst hkey
      rw [if_pos rfl, Option.some_inj, String.ofList_inj, isLastOption_concat_self,
        and_iff_right ⟨hempty, hcolon'⟩]
    · rw [if_neg fun h => hkey (String.ofList_injective h), ← Line.option?, h.option?_eq_some_iff]
      refine and_congr_right fun ⟨_, hcolon⟩ => ?_
      rw [isLastOption_concat_of_ne (append_colon_ne hcolon' hcolon hkey value')]

/-- One more token is accounted for. -/
theorem add (h : line.AccountsFor tokens) (token : List Char) :
    (line.add token).AccountsFor (tokens ++ [token]) where
  args_eq := by rw [args_add, h.args_eq, List.filter_append, List.map_append]
  keys_nodup := nodup_keys_add h.keys_nodup token
  option?_eq_some_iff := h.option?_add_eq_some_iff token

end AccountsFor

/-- More tokens are accounted for one after the other. -/
theorem AccountsFor.foldl_add {line : Line} {before : List (List Char)}
    (h : line.AccountsFor before) (tokens : List (List Char)) :
    (tokens.foldl Line.add line).AccountsFor (before ++ tokens) := by
  induction tokens generalizing line before with
  | nil => rwa [List.append_nil]
  | cons token tokens ih =>
    rw [List.foldl_cons, ← List.singleton_append, ← List.append_assoc]
    exact ih (h.add token)

/-- **A line accounts for the tokens that it is made of.** -/
theorem accountsFor_ofTokens (tokens : List (List Char)) : (ofTokens tokens).AccountsFor tokens :=
  AccountsFor.empty.foldl_add tokens

end Line

/-- **The grammar of a line.** Every line is cut into gaps of white space and pieces in exactly one
way, and its tokens are those of the pieces. Words in quotes come back as they are, whatever white
space stands between them or none, and white space at the ends of a line does not matter. A parsed
line accounts for every token of its text. -/
theorem tokenize_grammar :
    (∀ line : String, ∃ cuts last, Decomposes line.toList cuts last ∧
      line.toList = cuts.flatMap (fun cut => cut.gap ++ cut.piece) ++ last ∧
      (∀ cuts' last', Decomposes line.toList cuts' last' → cuts' = cuts ∧ last' = last) ∧
      tokenize line = cuts.map fun cut => String.ofList cut.token) ∧
    (∀ (parts : List (List Char × List Char)) (last : List Char),
      (∀ part ∈ parts, allBlank part.1 = true ∧ part.2 ≠ [] ∧ '"' ∉ part.2) →
      allBlank last = true →
      tokenize (String.ofList (parts.flatMap (fun part => part.1 ++ inQuotes part.2) ++ last))
        = parts.map fun part => String.ofList part.2) ∧
    (∀ line : String, tokenize (String.ofList (trim line.toList)) = tokenize line) ∧
    (∀ line : String, ∃ tokens : List (List Char), tokenize line = tokens.map String.ofList ∧
      (Line.parse line).AccountsFor tokens) := by
  refine ⟨fun line => ?pieces, fun parts last hparts hlast => ?quoted, fun line => ?trimmed,
    fun line => ⟨tokens line.toList, rfl, Line.accountsFor_ofTokens _⟩⟩
  case pieces =>
    obtain ⟨cuts, last, h⟩ := exists_decomposes line.toList
    refine ⟨cuts, last, h, h.line_eq, fun cuts' last' h' => h.unique h', ?_⟩
    rw [tokenize, h.tokens_eq, List.map_map]
    rfl
  case quoted =>
    rw [tokenize, String.toList_ofList, (decomposes_inQuotes hparts hlast).tokens_eq,
      List.map_map, List.map_map]
    rfl
  case trimmed => rw [tokenize, String.toList_ofList, tokens_trim, tokenize]

/-- Two words in quotes, one with a space and a bracket and one with a colon, and nothing between
them. -/
theorem tokenize_grammar_quoted :
    tokenize " \"a [b\"\":c\"" = ["a [b", ":c"] :=
  tokenize_grammar.2.1 [([' '], ['a', ' ', '[', 'b']), ([], [':', 'c'])] [] (by decide) rfl

end SceneCanvas.Script
