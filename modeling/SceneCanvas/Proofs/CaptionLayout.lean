import Mathlib.Logic.Relation
import SceneCanvas.Proofs.LastWriter
import SceneCanvas.Script.Caption

/-!
# Where captions stand

A title and a subtitle are placed across and down the scene by the last modifier about each
direction. The title's modifiers go for both captions, and a title at the bottom makes room for a
subtitle: `TextLayout.foldl_modifyBoth` shows that two folds that are tied together come to two
lookups with different tables. The subtitle starts from what the title left to it.

* `TextLayout.foldl_modify`: a layout is its last modifier across and its last modifier down.
* `Edit` are the changes to a list of modifiers that nobody sees: an unknown token more or less,
  two modifiers about different directions in the other order, a modifier written twice.
* `Caption.captions_by_last_modifier` says where the captions of a scene stand, and that edits of
  the modifiers leave them there.
-/

namespace SceneCanvas.Script

namespace TextLayout

/-- Bold text at a place across and a place down the scene, with the point of it that stands
there. -/
def placed (size : Float32) (across : Float × Align) (down : Float × Baseline) : TextLayout where
  size := size
  align := across.2
  baseline := down.2
  position := ⟨across.1, down.1⟩
  bold := true

/-- The places across the scene that modifiers name. -/
def sides : List (String × (Float × Align)) := [("<", 0.05, .left), (">", 0.95, .right)]

/-- The places down the scene that modifiers name, with the height of the lower one. -/
def heights (bottom : Float) : List (String × (Float × Baseline)) :=
  [("^", 0.05, .top), ("v", bottom, .bottom)]

/-- Across the middle. -/
def middleAcross : Float × Align := (0.5, .center)

/-- Halfway down. -/
def middleDown : Float × Baseline := (0.5, .middle)

theorem centered_eq (size : Float32) : centered size = placed size middleAcross middleDown := rfl

/-! ### One token -/

theorem isModifier_iff {token : String} :
    Caption.isModifier token = true ↔ token = "<" ∨ token = ">" ∨ token = "^" ∨ token = "v" := by
  simp [Caption.isModifier, or_assoc]

theorem isModifier_eq_false_iff {token : String} : Caption.isModifier token = false ↔
    token ≠ "<" ∧ token ≠ ">" ∧ token ≠ "^" ∧ token ≠ "v" := by
  rw [Bool.eq_false_iff, Ne, isModifier_iff, not_or, not_or, not_or]

theorem modify_of_not_modifier (layout : TextLayout) {token : String}
    (h : Caption.isModifier token = false) : layout.modify token = layout := by
  obtain ⟨hleft, hright, htop, hbottom⟩ := isModifier_eq_false_iff.mp h
  rw [modify]
  unfold modify?
  split
  next => exact absurd rfl hleft
  next => exact absurd rfl hright
  next => exact absurd rfl htop
  next => exact absurd rfl hbottom
  next => rfl

theorem lookup_of_not_modifier {token : String} (h : Caption.isModifier token = false)
    (bottom : Float) : sides.lookup token = none ∧ (heights bottom).lookup token = none := by
  obtain ⟨hleft, hright, htop, hbottom⟩ := isModifier_eq_false_iff.mp h
  simp [sides, heights, lookup_entry, hleft, hright, htop, hbottom]

variable (size subtitleSize : Float32) (across : Float × Align) (down inherited : Float × Baseline)

/-- A token moves a caption to the places that it names. -/
theorem modify_placed (token : String) :
    (placed size across down).modify token
      = placed size ((sides.lookup token).getD across)
          (((heights 0.95).lookup token).getD down) := by
  by_cases hmodifier : Caption.isModifier token = true
  · rcases isModifier_iff.mp hmodifier with rfl | rfl | rfl | rfl <;> rfl
  · rw [Bool.not_eq_true] at hmodifier
    obtain ⟨hsides, hheights⟩ := lookup_of_not_modifier hmodifier 0.95
    rw [modify_of_not_modifier _ hmodifier, hsides, hheights, Option.getD_none, Option.getD_none]

/-- How far down a title goes, which makes room for a subtitle if there is one. -/
def titleBottom (paired : Bool) : Float := if paired then 0.9 else 0.95

/-- How far down a subtitle goes together with its title. -/
def subtitleBottom (paired : Bool) : Float := if paired then 0.85 else 0.95

/-- A token of the title moves both captions across alike, and down by tables of their own. -/
theorem modifyBoth_placed (paired : Bool) (token : String) :
    Caption.modifyBoth paired (placed size across down, placed subtitleSize across inherited) token
      = (placed size ((sides.lookup token).getD across)
            (((heights (titleBottom paired)).lookup token).getD down),
          placed subtitleSize ((sides.lookup token).getD across)
            (((heights (subtitleBottom paired)).lookup token).getD inherited)) := by
  rw [Caption.modifyBoth]
  by_cases hmodifier : Caption.isModifier token = true
  · rcases isModifier_iff.mp hmodifier with rfl | rfl | rfl | rfl <;> cases paired <;> rfl
  · rw [Bool.not_eq_true] at hmodifier
    obtain ⟨hsides, hheights⟩ := lookup_of_not_modifier hmodifier (titleBottom paired)
    obtain ⟨-, hheights'⟩ := lookup_of_not_modifier hmodifier (subtitleBottom paired)
    have hbottom : (token == "v") = false :=
      beq_eq_false_iff_ne.mpr (isModifier_eq_false_iff.mp hmodifier).2.2.2
    rw [modify_of_not_modifier _ hmodifier, modify_of_not_modifier _ hmodifier, hsides, hheights,
      hheights', hbottom]
    rfl

/-! ### Lists of tokens -/

/-- **A layout** is its last modifier across and its last modifier down. -/
theorem foldl_modify (modifiers : List String) :
    modifiers.foldl modify (placed size across down)
      = placed size (lastOf sides across modifiers) (lastOf (heights 0.95) down modifiers) := by
  induction modifiers generalizing across down with
  | nil => rfl
  | cons token modifiers ih => rw [List.foldl_cons, modify_placed, ih, lastOf_cons, lastOf_cons]

/-- **The title's modifiers** go for both captions, with tables of their own for the heights. -/
theorem foldl_modifyBoth (paired : Bool) (modifiers : List String) :
    modifiers.foldl (Caption.modifyBoth paired)
        (placed size across down, placed subtitleSize across inherited)
      = (placed size (lastOf sides across modifiers)
            (lastOf (heights (titleBottom paired)) down modifiers),
          placed subtitleSize (lastOf sides across modifiers)
            (lastOf (heights (subtitleBottom paired)) inherited modifiers)) := by
  induction modifiers generalizing across down inherited with
  | nil => rfl
  | cons token modifiers ih =>
    rw [List.foldl_cons, modifyBoth_placed, ih, lastOf_cons, lastOf_cons, lastOf_cons]

end TextLayout

/-! ### Edits that nobody sees -/

/-- A change to a list of modifiers that leaves the caption where it is. -/
inductive Edit : List String → List String → Prop
  | drop (before after : List String) {token : String} (h : Caption.isModifier token = false) :
    Edit (before ++ token :: after) (before ++ after)
  | swap (before after : List String) {x y : String} (hx : x = "<" ∨ x = ">")
    (hy : y = "^" ∨ y = "v") : Edit (before ++ x :: y :: after) (before ++ y :: x :: after)
  | once (before after : List String) (token : String) :
    Edit (before ++ token :: token :: after) (before ++ token :: after)

/-- The two captions have the same text, and modifiers that differ by edits. -/
def TextLine.Alike (a b : TextLine) : Prop :=
  a.text = b.text ∧ Relation.EqvGen Edit a.modifiers b.modifiers

section

variable {modifiers modifiers' : List String}

open TextLayout

/-- What counts of a list of modifiers. -/
structure Same (modifiers modifiers' : List String) : Prop where
  across (start : Float × Align) : lastOf sides start modifiers = lastOf sides start modifiers'
  down (bottom : Float) (start : Float × Baseline) :
    lastOf (heights bottom) start modifiers = lastOf (heights bottom) start modifiers'
  any : modifiers.any Caption.isModifier = modifiers'.any Caption.isModifier

theorem Edit.same (h : Edit modifiers modifiers') : Same modifiers modifiers' := by
  cases h with
  | @drop before after token htoken =>
    exact {
      across := fun start => lastOf_drop start _ _ (lookup_of_not_modifier htoken 0).1
      down := fun bottom start => lastOf_drop start _ _ (lookup_of_not_modifier htoken bottom).2
      any := by rw [List.any_append, List.any_append, List.any_cons, htoken, Bool.false_or] }
  | @swap before after x y hx hy =>
    exact {
      across := fun start => lastOf_swap start _ _ (.inr (by rcases hy with rfl | rfl <;> rfl))
      down := fun bottom start =>
        lastOf_swap start _ _ (.inl (by rcases hx with rfl | rfl <;> rfl))
      any := by simp only [List.any_append, List.any_cons, Bool.or_left_comm] }
  | once before after token =>
    exact {
      across := fun start => lastOf_once start _ _
      down := fun bottom start => lastOf_once start _ _
      any := by simp only [List.any_append, List.any_cons, Bool.or_self_left] }

theorem Same.of_edits (h : Relation.EqvGen Edit modifiers modifiers') :
    Same modifiers modifiers' := by
  induction h with
  | rel _ _ h => exact h.same
  | refl _ => exact ⟨fun _ => rfl, fun _ _ => rfl, rfl⟩
  | symm _ _ _ ih =>
    exact ⟨fun start => (ih.across start).symm, fun bottom start => (ih.down bottom start).symm,
      ih.any.symm⟩
  | trans _ _ _ _ _ ih ih' =>
    exact ⟨fun start => (ih.across start).trans (ih'.across start),
      fun bottom start => (ih.down bottom start).trans (ih'.down bottom start),
      ih.any.trans ih'.any⟩

end

namespace Caption

open TextLayout

/-- The place down the scene, further down for a subtitle without a modifier of its own. -/
def lowered (modifiers : List String) (down : Float × Baseline) : Float × Baseline :=
  if modifiers.any isModifier then down else (down.1 + subtitleOffset, down.2)

variable (titleSize subtitleSize : Float32) (t s : TextLine)

theorem placeBelow_placed (across : Float × Align) (down : Float × Baseline)
    (modifiers : List String) :
    placeBelow (placed subtitleSize across down) modifiers
      = placed subtitleSize (lastOf sides across modifiers)
          (lowered modifiers (lastOf (heights 0.95) down modifiers)) := by
  rw [placeBelow, foldl_modify, lowered]
  split
  next => rfl
  next => rfl

theorem resolve_subtitle : resolve none (some s) titleSize subtitleSize =
    [⟨s.text, placed subtitleSize (lastOf sides middleAcross s.modifiers)
      (lastOf (heights 0.95) middleDown s.modifiers)⟩] := by
  rw [resolve, centered_eq, Option.toList_some, List.map_singleton, foldl_modify]

theorem resolve_title : resolve (some t) none titleSize subtitleSize =
    [⟨t.text, placed titleSize (lastOf sides middleAcross t.modifiers)
      (lastOf (heights 0.95) middleDown t.modifiers)⟩] := by
  rw [resolve, centered_eq, centered_eq, foldl_modifyBoth]
  rfl

theorem resolve_both : resolve (some t) (some s) titleSize subtitleSize =
    [⟨t.text, placed titleSize (lastOf sides middleAcross t.modifiers)
        (lastOf (heights 0.9) middleDown t.modifiers)⟩,
      ⟨s.text, placed subtitleSize
        (lastOf sides (lastOf sides middleAcross t.modifiers) s.modifiers)
        (lowered s.modifiers (lastOf (heights 0.95)
          (lastOf (heights 0.85) middleDown t.modifiers) s.modifiers))⟩] := by
  rw [resolve, centered_eq, centered_eq, foldl_modifyBoth]
  simp only [Option.toList_some, List.map_cons, List.map_nil, placeBelow_placed]
  rfl

/-- Edits of the modifiers leave the captions where they are. -/
theorem resolve_congr {title title' subtitle subtitle' : Option TextLine}
    (htitle : Option.Rel TextLine.Alike title title')
    (hsubtitle : Option.Rel TextLine.Alike subtitle subtitle') :
    resolve title subtitle titleSize subtitleSize
      = resolve title' subtitle' titleSize subtitleSize := by
  have hsame {a b : TextLine} (h : a.Alike b) : a.text = b.text ∧ Same a.modifiers b.modifiers :=
    ⟨h.1, .of_edits h.2⟩
  cases htitle with
  | none =>
    cases hsubtitle with
    | none => rfl
    | some hs =>
      obtain ⟨hstext, hsame⟩ := hsame hs
      rw [resolve_subtitle, resolve_subtitle, hstext, hsame.across, hsame.down]
  | some ht =>
    obtain ⟨httext, hsame'⟩ := hsame ht
    cases hsubtitle with
    | none => rw [resolve_title, resolve_title, httext, hsame'.across, hsame'.down]
    | some hs =>
      obtain ⟨hstext, hsame⟩ := hsame hs
      rw [resolve_both, resolve_both, httext, hstext, hsame'.across, hsame'.down, hsame'.down,
        hsame.across, hsame.down, lowered, lowered, hsame.any]

/-- **The last modifier about a direction counts.** The title comes first. Across the scene it
stands at the side that its last modifier about sides names, and down the scene at the height that
its last modifier about heights names, a little above the bottom if there is a subtitle; without
such a modifier it stands in the middle. A subtitle starts from where the title's modifiers have
taken it, the bottom of the scene being higher up for it, and is moved by its own last modifiers;
without any modifier of its own it stands lower by a fixed distance. A subtitle without a title
stands as a title would without a subtitle. Unknown tokens, the order of modifiers about different
directions and modifiers that are written twice do not count. -/
theorem captions_by_last_modifier :
    resolve none none titleSize subtitleSize = [] ∧
    (∀ s : TextLine, resolve none (some s) titleSize subtitleSize =
      [⟨s.text, placed subtitleSize (lastOf sides middleAcross s.modifiers)
        (lastOf (heights 0.95) middleDown s.modifiers)⟩]) ∧
    (∀ t : TextLine, resolve (some t) none titleSize subtitleSize =
      [⟨t.text, placed titleSize (lastOf sides middleAcross t.modifiers)
        (lastOf (heights 0.95) middleDown t.modifiers)⟩]) ∧
    (∀ t s : TextLine, resolve (some t) (some s) titleSize subtitleSize =
      [⟨t.text, placed titleSize (lastOf sides middleAcross t.modifiers)
          (lastOf (heights 0.9) middleDown t.modifiers)⟩,
        ⟨s.text, placed subtitleSize
          (lastOf sides (lastOf sides middleAcross t.modifiers) s.modifiers)
          (lowered s.modifiers (lastOf (heights 0.95)
            (lastOf (heights 0.85) middleDown t.modifiers) s.modifiers))⟩]) ∧
    ∀ title title' subtitle subtitle' : Option TextLine,
      Option.Rel TextLine.Alike title title' → Option.Rel TextLine.Alike subtitle subtitle' →
        resolve title subtitle titleSize subtitleSize
          = resolve title' subtitle' titleSize subtitleSize := by
  refine ⟨rfl, resolve_subtitle titleSize subtitleSize, resolve_title titleSize subtitleSize,
    resolve_both titleSize subtitleSize, ?_⟩
  intro title title' subtitle subtitle' htitle hsubtitle
  exact resolve_congr titleSize subtitleSize htitle hsubtitle

/-- A title that goes down and up again, with an unknown token between, over a subtitle whose only
token is unknown. -/
theorem captions_by_last_modifier_undone :
    resolve (some ⟨"A", ["v", "zz", "<", "^"]⟩) (some ⟨"B", ["?"]⟩) 192 96 =
        [⟨"A", placed 192 (0.05, .left) (0.05, .top)⟩,
          ⟨"B", placed 96 (0.05, .left) (0.05 + subtitleOffset, .top)⟩] ∧
      resolve (some ⟨"A", ["v", "zz", "<", "^"]⟩) (some ⟨"B", ["?"]⟩) 192 96
        = resolve (some ⟨"A", ["v", "^", "<"]⟩) (some ⟨"B", []⟩) 192 96 := by
  obtain ⟨-, -, -, hboth, hedits⟩ := captions_by_last_modifier 192 96
  refine ⟨hboth _ _, hedits _ _ _ _ (.some ⟨rfl, ?_⟩) (.some ⟨rfl, ?_⟩)⟩
  · have hunknown : Edit ["v", "zz", "<", "^"] ["v", "<", "^"] := .drop ["v"] ["<", "^"] rfl
    have horder : Edit ["v", "<", "^"] ["v", "^", "<"] := .swap ["v"] [] (.inl rfl) (.inl rfl)
    exact .trans _ _ _ (.rel _ _ hunknown) (.rel _ _ horder)
  · exact .rel _ _ (.drop [] [] rfl)

end Caption

end SceneCanvas.Script
