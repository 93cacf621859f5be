import Mathlib.Algebra.Group.Nat.Even
import Mathlib.Data.List.DropRight
import Mathlib.Tactic.Linarith
import SceneCanvas.Proofs.Affine
import SceneCanvas.Proofs.LastWriter
import SceneCanvas.Script.Placement

/-!
# Where pictures land

The tokens after a picture's name overwrite one another in part: each of them sets some of the six
numbers of a placement, and `FLIP` also turns the sign of one of them. `Placement.settled` says what
a list of tokens comes to, number by number, and `ImageRef.settled` what picture it calls for.

* `ImageRef.resolve_eq_settled`: reading the tokens one by one comes to just that.
* `ImageRef.resolve_congr`: modifiers and path segments may be written in any interleaving.
* `Placement.image_transform`: the picture keeps its size, and its anchor lands on its position.
* `ImageRef.placement_of_tokens` puts these together.
* `ImageRef.edge_modifier_extent`: which edge of the scene a picture is flush with.
-/

namespace SceneCanvas.Script

/-- Minus one turns the signs of one and of itself. -/
class TurnsSigns (α : Type) [Scalar α] : Prop where
  one_mul : (1.0 : α) * -1.0 = -1.0
  neg_one_mul : (-1.0 : α) * -1.0 = 1.0

instance : TurnsSigns Float := ⟨by decide, by decide⟩

instance : TurnsSigns Rat := ⟨by norm_num, by norm_num⟩

/-! ### What tokens come to -/

/-- How often the picture is turned over after it was last put to the right edge, or at all. -/
def flips (tokens : List String) : Nat := (tokens.rtakeWhile (· != ">")).count "FLIP"

/-- The picture is mirrored in the end. Put to the right edge it is mirrored to begin with. -/
def Mirrored (tokens : List String) : Prop := Odd (flips tokens + if ">" ∈ tokens then 1 else 0)

instance : DecidablePred Mirrored := fun tokens =>
  inferInstanceAs (Decidable (Odd (flips tokens + if ">" ∈ tokens then 1 else 0)))

theorem mirrored_concat_right (tokens : List String) : Mirrored (tokens ++ [">"]) := by
  simp [Mirrored, flips]

theorem mirrored_concat_flip (tokens : List String) :
    Mirrored (tokens ++ ["FLIP"]) ↔ ¬Mirrored tokens := by
  have hflips : flips (tokens ++ ["FLIP"]) = flips tokens + 1 := by
    simp [flips]
  have hmem : ">" ∈ tokens ++ ["FLIP"] ↔ ">" ∈ tokens := by simp
  rw [Mirrored, hflips, if_congr hmem rfl rfl, Nat.add_right_comm, Nat.odd_add_one]
  rfl

theorem mirrored_concat_of_ne {token : String} (hright : token ≠ ">") (hflip : token ≠ "FLIP")
    (tokens : List String) : Mirrored (tokens ++ [token]) ↔ Mirrored tokens := by
  have hflips : flips (tokens ++ [token]) = flips tokens := by
    simp [flips, hright, hflip]
  have hmem : ">" ∈ tokens ++ [token] ↔ ">" ∈ tokens := by simp [Ne.symm hright]
  rw [Mirrored, hflips, if_congr hmem rfl rfl]
  rfl

/-! ### Modifiers and path segments -/

theorem isPlacementModifier_iff {token : String} : isPlacementModifier token = true ↔
    token = "<" ∨ token = ">" ∨ token = "FLIP" ∨ token = "+" := by
  simp [isPlacementModifier, or_assoc]

theorem isPlacementModifier_eq_false_iff {token : String} : isPlacementModifier token = false ↔
    token ≠ "<" ∧ token ≠ ">" ∧ token ≠ "FLIP" ∧ token ≠ "+" := by
  rw [Bool.eq_false_iff, Ne, isPlacementModifier_iff, not_or, not_or, not_or]

/-- Path segments do not count for the mirroring. -/
theorem mirrored_filter (tokens : List String) :
    Mirrored (tokens.filter isPlacementModifier) ↔ Mirrored tokens := by
  induction tokens using List.reverseRecOn with
  | nil => rfl
  | append_singleton tokens token ih =>
    rw [List.filter_append]
    by_cases hright : token = ">"
    · subst hright
      exact iff_of_true (mirrored_concat_right _) (mirrored_concat_right _)
    · by_cases hflip : token = "FLIP"
      · subst hflip
        exact (mirrored_concat_flip _).trans ((not_congr ih).trans (mirrored_concat_flip _).symm)
      · rw [mirrored_concat_of_ne hright hflip, ← ih]
        cases hmodifier : isPlacementModifier token with
        | true =>
          rw [List.filter_cons_of_pos hmodifier, List.filter_nil, mirrored_concat_of_ne hright hflip]
        | false => rw [List.filter_cons_of_neg (by simp [hmodifier]), List.filter_nil, List.append_nil]

section

variable {α : Type} [Scalar α]

/-- A token is a modifier just if it changes placements. -/
theorem Placement.isSome_modify? (p : Placement α) (token : String) :
    (p.modify? token).isSome = isPlacementModifier token := by
  unfold modify?
  split
  next => rfl
  next => rfl
  next => rfl
  next => rfl
  next hleft hright hflip hcenter =>
    exact (isPlacementModifier_eq_false_iff.mpr ⟨hleft, hright, hflip, hcenter⟩).symm

theorem Placement.modify_of_not_modifier (p : Placement α) {token : String}
    (h : isPlacementModifier token = false) : p.modify token = p := by
  rw [← p.isSome_modify?, Option.isSome_eq_false_iff, Option.isNone_iff_eq_none] at h
  rw [modify, h, Option.getD_none]

end

namespace Placement

section Settled

variable {α : Type} [Scalar α]

/-- What the tokens that move the anchor across the picture move it to. -/
def anchorsAcross : List (String × α) := [("<", 0.0), (">", 0.0), ("FLIP", 1.0), ("+", 0.5)]

/-- What the tokens that move the picture across the scene move it to. -/
def positionsAcross : List (String × α) := [("<", 0.0), (">", 1.0), ("+", 0.5)]

/-- The placement that tokens come to. Each number is what the last token that sets it says, the
scale across apart, whose sign is turned as well. -/
def settled (tokens : List String) : Placement α where
  anchor := ⟨lastOf anchorsAcross 0.5 tokens, if "+" ∈ tokens then 0.5 else 1.0⟩
  position := ⟨lastOf positionsAcross 0.5 tokens, if "+" ∈ tokens then 0.5 else 1.0⟩
  scale := ⟨if Mirrored tokens then -1.0 else 1.0, 1.0⟩

theorem lookup_of_not_modifier {token : String} (h : isPlacementModifier token = false) :
    (anchorsAcross : List (String × α)).lookup token = none ∧
      (positionsAcross : List (String × α)).lookup token = none := by
  obtain ⟨hleft, hright, hflip, hcenter⟩ := isPlacementModifier_eq_false_iff.mp h
  simp [anchorsAcross, positionsAcross, lookup_entry, hleft, hright, hflip, hcenter]

/-- One more token changes what the tokens come to as it changes a placement. -/
theorem modify_settled [TurnsSigns α] (tokens : List String) (token : String) :
    (settled tokens : Placement α).modify token = settled (tokens ++ [token]) := by
  rw [settled, settled, lastOf_concat, lastOf_concat]
  by_cases hmodifier : isPlacementModifier token = true
  · rcases isPlacementModifier_iff.mp hmodifier with rfl | rfl | rfl | rfl
    · simp [modify, modify?, anchorsAcross, positionsAcross, mirrored_concat_of_ne]
    · simp [modify, modify?, anchorsAcross, positionsAcross, lookup_entry, mirrored_concat_right]
    · by_cases hmirrored : Mirrored tokens
      · simp [modify, modify?, anchorsAcross, positionsAcross, lookup_entry, mirrored_concat_flip,
          hmirrored, TurnsSigns.neg_one_mul]
      · simp [modify, modify?, anchorsAcross, positionsAcross, lookup_entry, mirrored_concat_flip,
          hmirrored, TurnsSigns.one_mul]
    · simp [modify, modify?, anchorsAcross, positionsAcross, lookup_entry, mirrored_concat_of_ne]
  · rw [Bool.not_eq_true] at hmodifier
    obtain ⟨hanchor, hposition⟩ := lookup_of_not_modifier (α := α) hmodifier
    rw [modify_of_not_modifier _ hmodifier, hanchor, hposition]
    obtain ⟨-, hright, hflip, hcenter⟩ := isPlacementModifier_eq_false_iff.mp hmodifier
    simp [mirrored_concat_of_ne hright hflip, Ne.symm hcenter]

theorem foldl_modify_standard [TurnsSigns α] (tokens : List String) :
    tokens.foldl modify (standard : Placement α) = settled tokens := by
  induction tokens using List.reverseRecOn with
  | nil => simp [settled, standard, Mirrored, flips]
  | append_singleton tokens token ih =>
    rw [List.foldl_append, ih, ← modify_settled]
    rfl

/-- Path segments do not count for the placement. -/
theorem foldl_modify_filter (p : Placement α) (tokens : List String) :
    (tokens.filter isPlacementModifier).foldl modify p = tokens.foldl modify p := by
  induction tokens generalizing p with
  | nil => rfl
  | cons token tokens ih =>
    cases hmodifier : isPlacementModifier token with
    | true => rw [List.filter_cons_of_pos hmodifier, List.foldl_cons, List.foldl_cons, ih]
    | false =>
      rw [List.filter_cons_of_neg (by simp [hmodifier]), List.foldl_cons,
        modify_of_not_modifier p hmodifier, ih]

end Settled

/-- The scale only mirrors. -/
theorem scale_settled (tokens : List String) :
    ((settled tokens : Placement Rat).scale.x = 1 ∨ (settled tokens : Placement Rat).scale.x = -1) ∧
      (settled tokens : Placement Rat).scale.y = 1 := by
  by_cases hmirrored : Mirrored tokens
  · simp only [settled, if_pos hmirrored]
    norm_num
  · simp only [settled, if_neg hmirrored]
    norm_num

/-! ### What the map of a placement does -/

section Transform

variable (p : Placement Rat) (scene image : Vec Rat)

/-- The map of a placement works on each axis by itself. -/
theorem apply_transform (q : Vec Rat) :
    (p.transform scene image).apply q =
      ⟨scene.x * p.position.x + p.scale.x * (q.x - image.x * p.anchor.x),
        scene.y * p.position.y + p.scale.y * (q.y - image.y * p.anchor.y)⟩ := by
  rw [transform, Affine.apply_mul, Affine.apply_mul, Affine.apply_translate, Affine.apply_scale,
    Affine.apply_translate, Vec.mk.injEq]
  constructor
  · ring
  · ring

/-- **The anchor lands on the position.** -/
theorem apply_transform_anchor :
    (p.transform scene image).apply ⟨p.anchor.x * image.x, p.anchor.y * image.y⟩
      = ⟨p.position.x * scene.x, p.position.y * scene.y⟩ := by
  rw [apply_transform, Vec.mk.injEq]
  constructor
  · ring
  · ring

/-- A picture that is not mirrored starts where its anchor takes it. -/
private theorem image_extent (o a w : Rat) :
    (fun x => o + 1 * (x - a)) '' Set.Icc 0 (0 + w) = Set.Icc (o - a) (o - a + w) := by
  have hshift : (fun x : Rat => o + 1 * (x - a)) = fun x => (o - a) + x := funext fun x => by ring
  rw [hshift, Set.image_const_add_Icc, add_zero, zero_add]

/-- A mirrored picture ends where its anchor takes it. -/
private theorem image_mirrored_extent (o a w : Rat) :
    (fun x => o + -1 * (x - a)) '' Set.Icc 0 (0 + w) = Set.Icc (o + a - w) (o + a - w + w) := by
  have hshift : (fun x : Rat => o + -1 * (x - a)) = fun x => (o + a) - x := funext fun x => by ring
  rw [hshift, Set.image_const_sub_Icc, zero_add, sub_zero, sub_add_cancel]

/-- **The picture keeps its size**, mirrored or not, and stands upright. -/
theorem image_transform {p : Placement Rat} (hx : p.scale.x = 1 ∨ p.scale.x = -1)
    (hy : p.scale.y = 1) :
    ∃ corner, (p.transform scene image).apply '' Vec.rectangle ⟨0, 0⟩ image
      = Vec.rectangle corner image := by
  obtain ⟨left, hleft⟩ : ∃ left,
      (fun x => scene.x * p.position.x + p.scale.x * (x - image.x * p.anchor.x))
        '' Set.Icc 0 (0 + image.x) = Set.Icc left (left + image.x) := by
    rcases hx with hx | hx
    · exact ⟨_, by rw [hx, image_extent]⟩
    · exact ⟨_, by rw [hx, image_mirrored_extent]⟩
  have htop := image_extent (scene.y * p.position.y) (image.y * p.anchor.y) image.y
  rw [← hy] at htop
  exact ⟨⟨left, _⟩, image_rectangle (p.apply_transform scene image) hleft htop⟩

end Transform

end Placement

namespace ImageRef

open Placement

section

variable {α : Type} [Scalar α]

/-- The picture that tokens come to: the path segments among them in order, and their placement. -/
def settled (identifier : String) (tokens : List String) : ImageRef α where
  key := "/".intercalate (identifier :: tokens.filter (!isPlacementModifier ·))
  placement := .settled tokens

/-- The path segments are collected in order, and the placement is changed by the other tokens. -/
theorem foldl_readToken (segments : List String) (p : Placement α) (tokens : List String) :
    tokens.foldl readToken (segments, p)
      = (segments ++ tokens.filter (!isPlacementModifier ·), tokens.foldl Placement.modify p) := by
  induction tokens generalizing segments p with
  | nil => rw [List.filter_nil, List.append_nil]; rfl
  | cons token tokens ih =>
    have hsome := p.isSome_modify? token
    rw [List.foldl_cons, List.foldl_cons, readToken, Placement.modify]
    cases hmodify : p.modify? token with
    | none =>
      rw [hmodify, Option.isSome_none] at hsome
      rw [ih, List.filter_cons_of_pos (by simp [← hsome]), List.append_assoc]
      rfl
    | some p' =>
      rw [hmodify, Option.isSome_some] at hsome
      rw [ih, List.filter_cons_of_neg (by simp [← hsome])]
      rfl

theorem resolve_eq (identifier : String) (tokens : List String) :
    (resolve identifier tokens : ImageRef α) =
      ⟨"/".intercalate (identifier :: tokens.filter (!isPlacementModifier ·)),
        tokens.foldl Placement.modify standard⟩ := by
  rw [resolve, foldl_readToken]
  rfl

/-- **Reading the tokens one by one** comes to what the last ones say. -/
theorem resolve_eq_settled [TurnsSigns α] (identifier : String) (tokens : List String) :
    (resolve identifier tokens : ImageRef α) = settled identifier tokens := by
  rw [resolve_eq, foldl_modify_standard]
  rfl

theorem placement_resolve_congr {tokens tokens' : List String}
    (h : tokens.filter isPlacementModifier = tokens'.filter isPlacementModifier)
    (identifier identifier' : String) :
    (resolve identifier tokens : ImageRef α).placement = (resolve identifier' tokens').placement := by
  rw [resolve_eq, resolve_eq]
  simp only
  rw [← foldl_modify_filter, h, foldl_modify_filter]

/-- **Modifiers and path segments may be interleaved** in any way. -/
theorem resolve_congr {tokens tokens' : List String}
    (hmodifiers : tokens.filter isPlacementModifier = tokens'.filter isPlacementModifier)
    (hsegments : tokens.filter (!isPlacementModifier ·) = tokens'.filter (!isPlacementModifier ·))
    (identifier : String) :
    (resolve identifier tokens : ImageRef α) = resolve identifier tokens' := by
  rw [resolve_eq, resolve_eq, hsegments, ← foldl_modify_filter, hmodifiers, foldl_modify_filter]

end

/-- **What tokens come to.** The key of a picture is its identifier followed by the path segments
among its tokens, and each number of its placement is what the last token that sets it says, in
rounded and in exact arithmetic alike. The placement does not depend on the path segments, and
tokens with the same modifiers and the same path segments, each in their order, call for the same
picture. In exact arithmetic the anchor lands on the position, and the picture lands on an upright
rectangle of its own size, whatever the sizes of scene and picture. -/
theorem placement_of_tokens (identifier : String) (tokens : List String) :
    ((resolve identifier tokens : ImageRef Float) = settled identifier tokens ∧
      (resolve identifier tokens : ImageRef Rat) = settled identifier tokens) ∧
    (∀ tokens', tokens.filter isPlacementModifier = tokens'.filter isPlacementModifier →
      (∀ identifier', (resolve identifier tokens : ImageRef Float).placement
        = (resolve identifier' tokens').placement) ∧
      (tokens.filter (!isPlacementModifier ·) = tokens'.filter (!isPlacementModifier ·) →
        (resolve identifier tokens : ImageRef Float) = resolve identifier tokens')) ∧
    ∀ scene image : Vec Rat,
      let p := (resolve identifier tokens : ImageRef Rat).placement
      (p.transform scene image).apply ⟨p.anchor.x * image.x, p.anchor.y * image.y⟩
          = ⟨p.position.x * scene.x, p.position.y * scene.y⟩ ∧
        ∃ corner, (p.transform scene image).apply '' Vec.rectangle ⟨0, 0⟩ image
          = Vec.rectangle corner image := by
  refine ⟨⟨resolve_eq_settled _ _, resolve_eq_settled _ _⟩, ?_, ?_⟩
  · intro tokens' hmodifiers
    constructor
    · intro identifier'
      exact placement_resolve_congr hmodifiers identifier identifier'
    · intro hsegments
      exact resolve_congr hmodifiers hsegments identifier
  · intro scene image p
    have hp : p = .settled tokens := congrArg placement (resolve_eq_settled identifier tokens)
    obtain ⟨hx, hy⟩ := scale_settled tokens
    rw [← hp] at hx hy
    exact ⟨apply_transform_anchor p scene image, image_transform scene image hx hy⟩

/-- Modifiers before, between and behind path segments, and a picture that is turned over twice. -/
theorem placement_of_tokens_blush :
    (resolve "alice" ["happy", ">", "[blush]", "FLIP"] : ImageRef Float)
        = resolve "alice" [">", "FLIP", "happy", "[blush]"] ∧
      (resolve "alice" ["happy", ">", "[blush]", "FLIP"] : ImageRef Rat)
        = ⟨"alice/happy/[blush]", ⟨1, 1⟩, ⟨1, 1⟩, ⟨1, 1⟩⟩ := by
  have h := placement_of_tokens "alice" ["happy", ">", "[blush]", "FLIP"]
  refine ⟨(h.2.1 [">", "FLIP", "happy", "[blush]"] (by decide)).2 (by decide), ?_⟩
  exact h.1.2.trans (by decide +kernel)

/-! ### Flush with an edge -/

/-- The modifier that is read last. -/
def lastModifier (tokens : List String) : Option String :=
  (tokens.filter isPlacementModifier).getLast?

section Edges

variable {tokens : List String}

/-- Anchor and position across, once the last modifier sets both. -/
theorem across_of_lastModifier (identifier : String) {token : String} {anchor position : Rat}
    (h : lastModifier tokens = some token)
    (hanchor : (anchorsAcross : List (String × Rat)).lookup token = some anchor)
    (hposition : (positionsAcross : List (String × Rat)).lookup token = some position) :
    let p := (resolve identifier tokens : ImageRef Rat).placement
    p.anchor.x = anchor ∧ p.position.x = position := by
  obtain ⟨before, hbefore⟩ := List.getLast?_eq_some_iff.mp h
  rw [resolve_eq_settled]
  constructor
  · exact lastOf_eq_of_filter_eq_concat (fun _ ht => (lookup_of_not_modifier ht).1) hbefore hanchor _
  · exact lastOf_eq_of_filter_eq_concat (fun _ ht => (lookup_of_not_modifier ht).2) hbefore
      hposition _

theorem mirrored_of_lastModifier (h : lastModifier tokens = some ">") : Mirrored tokens := by
  obtain ⟨before, hbefore⟩ := List.getLast?_eq_some_iff.mp h
  rw [← mirrored_filter, hbefore]
  exact mirrored_concat_right before

/-- Where the picture's columns go, if `<` is the last modifier: mirrored or not, the first one
stays where it is. -/
theorem across_of_left (identifier : String) (h : lastModifier tokens = some "<")
    (scene image : Vec Rat) (x y : Rat) :
    (((resolve identifier tokens : ImageRef Rat).placement.transform scene image).apply ⟨x, y⟩).x
      = if Mirrored tokens then -x else x := by
  obtain ⟨hanchor, hposition⟩ := across_of_lastModifier identifier h rfl rfl
  rw [apply_transform, hanchor, hposition, resolve_eq_settled]
  simp only [settled, Placement.settled]
  split
  · norm_num
  · norm_num

/-- Where the picture's columns go, if `>` is the last modifier. -/
theorem across_of_right (identifier : String) (h : lastModifier tokens = some ">")
    (scene image : Vec Rat) (x y : Rat) :
    (((resolve identifier tokens : ImageRef Rat).placement.transform scene image).apply ⟨x, y⟩).x
      = scene.x - x := by
  obtain ⟨hanchor, hposition⟩ := across_of_lastModifier identifier h rfl rfl
  rw [apply_transform, hanchor, hposition, resolve_eq_settled]
  simp only [settled, Placement.settled]
  rw [if_pos (mirrored_of_lastModifier h)]
  norm_num
  ring

/-- **Flush with an edge.** If `<` is the last modifier, a picture that is not mirrored stands at
the left edge of the scene, and a mirrored one has been turned over about that edge and lies beyond
it: the modifier leaves the scale as it is. If `>` is the last modifier, the picture is mirrored and
ends at the right edge, whatever was said before. -/
theorem edge_modifier_extent (identifier : String) (tokens : List String) (scene image : Vec Rat)
    (y : Rat) :
    let map := (resolve identifier tokens : ImageRef Rat).placement.transform scene image
    let across := fun x => (map.apply ⟨x, y⟩).x
    (lastModifier tokens = some "<" → ¬Mirrored tokens →
      across '' Set.Icc 0 image.x = Set.Icc 0 image.x) ∧
    (lastModifier tokens = some "<" → Mirrored tokens →
      across '' Set.Icc 0 image.x = Set.Icc (-image.x) 0) ∧
    (lastModifier tokens = some ">" → Mirrored tokens ∧ across 0 = scene.x ∧
      across '' Set.Icc 0 image.x = Set.Icc (scene.x - image.x) scene.x) := by
  intro map across
  refine ⟨fun h hplain => ?_, fun h hmirrored => ?_, fun h => ?_⟩
  · have hacross : across = id := funext fun x =>
      (across_of_left identifier h scene image x y).trans (if_neg hplain)
    rw [hacross, Set.image_id]
  · have hacross : across = fun x => 0 - x := funext fun x =>
      (across_of_left identifier h scene image x y).trans
        ((if_pos hmirrored).trans (zero_sub x).symm)
    rw [hacross, Set.image_const_sub_Icc, zero_sub, sub_zero]
  · have hacross : across = fun x => scene.x - x := funext fun x =>
      across_of_right identifier h scene image x y
    refine ⟨mirrored_of_lastModifier h, ?_, ?_⟩
    · rw [hacross]
      exact sub_zero scene.x
    · rw [hacross, Set.image_const_sub_Icc, sub_zero]

/-- Turned over twice and put to the left edge, with a path segment behind. -/
theorem edge_modifier_extent_twice :
    let p := (resolve "alice" [">", "FLIP", "<", "happy"] : ImageRef Rat).placement
    (fun x => ((p.transform ⟨100, 50⟩ ⟨20, 10⟩).apply ⟨x, 0⟩).x) '' Set.Icc 0 20
      = Set.Icc (0 : Rat) 20 :=
  (edge_modifier_extent "alice" [">", "FLIP", "<", "happy"] ⟨100, 50⟩ ⟨20, 10⟩ 0).1
    (by decide) (by decide)

/-- **A mirrored picture is not flush with the left edge**: turned over and then put there, it lies
outside the scene. -/
theorem mirrored_beyond_left_edge :
    ¬∀ (identifier : String) (tokens : List String) (scene image : Vec Rat) (y : Rat),
      lastModifier tokens = some "<" →
        (fun x => (((resolve identifier tokens : ImageRef Rat).placement.transform scene
          image).apply ⟨x, y⟩).x) '' Set.Icc 0 image.x = Set.Icc 0 image.x := by
  intro h
  have hlast : lastModifier ["FLIP", "<"] = some "<" := by decide
  have hmirrored : Mirrored ["FLIP", "<"] := by decide
  -- the right edge of the picture would have to come from a column of it
  have hedge : (20 : Rat) ∈ Set.Icc 0 20 := by norm_num
  rw [← h "alice" ["FLIP", "<"] ⟨100, 50⟩ ⟨20, 10⟩ 0 hlast] at hedge
  obtain ⟨x, ⟨hx, -⟩, hacross⟩ := hedge
  have hcolumn := (across_of_left "alice" hlast ⟨100, 50⟩ ⟨20, 10⟩ x 0).trans (if_pos hmirrored)
  linarith only [hx, hcolumn.symm.trans hacross]

end Edges

end ImageRef

end SceneCanvas.Script
