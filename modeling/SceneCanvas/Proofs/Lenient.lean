import SceneCanvas.Proofs.Shape
import SceneCanvas.Proofs.Spelling

/-!
# Settings that were read leniently

Whatever an object of settings holds, and whatever is entered into a form afterwards, the settings
that come of it can be used (`Render.lenient_settings_usable`).

* `Settings.foldl_setMember` says what any number of values comes to: each field goes by the last
  value that was given for its own key. Everything about order follows from it.
* `Settings.Offers` says which integer a value offers for a size, without reading it the way the
  program does, and `Settings.dimension_of_offers` that this integer is the one that counts.
* `Settings.dimension_integer` compares the two ways to spell an integer, as a number and as a
  text. Beyond the words the number is a double and the text no integer at all, but neither is a
  size.
-/

namespace SceneCanvas

namespace Settings

/-! ### Sizes -/

/-- The sizes among the settings. -/
inductive SizeField where
  | sceneW
  | sceneH
  | titleSize
  | subtitleSize

namespace SizeField

def key : SizeField → String
  | sceneW => "sceneW"
  | sceneH => "sceneH"
  | titleSize => "titleSize"
  | subtitleSize => "subtitleSize"

def default : SizeField → UInt32
  | sceneW => 1920
  | sceneH => 1080
  | titleSize => 192
  | subtitleSize => 96

/-- The size that some settings have in a field. -/
def get (s : Settings) : SizeField → UInt32
  | sceneW => s.sceneW
  | sceneH => s.sceneH
  | titleSize => s.titleSize
  | subtitleSize => s.subtitleSize

end SizeField

/-- An integer that a size can be. -/
def IsSize (n : Int) : Prop := 1 ≤ n ∧ n ≤ 65535

/-- The integer that a value offers for a size: a number, cut off at its point, or what a text
starts with. -/
inductive Offers : Json → Int → Prop where
  | int (n : Int) : Offers (.number (some (.int n))) n
  | float {x : Float} {q : Rat} (h : Scalar.valueOf? x = some q) :
      Offers (.number (some (.float x))) (Int.tdiv q.num q.den)
  | text {s : String} {n : Int} (h : Text.StartsWithInteger s.toList n) :
      Offers (.string (some s)) n

theorem sizeOr_of_isSize {n : Int} (h : IsSize n) (default : UInt32) :
    ((sizeOr n default).toNat : Int) = n := by
  obtain ⟨hlow, hhigh⟩ := h
  rw [sizeOr, if_pos ⟨by omega, hhigh⟩, UInt32.toNat_ofNat']
  omega

theorem sizeOr_of_not_isSize {n : Int} (h : ¬IsSize n) (default : UInt32) :
    sizeOr n default = default := by
  rw [sizeOr, if_neg]
  rintro ⟨hlow, hhigh⟩
  exact h ⟨by omega, hhigh⟩

theorem not_isSize_of_not_fitsInt64 {n : Int} (h : ¬Text.fitsInt64 n = true) : ¬IsSize n := by
  rintro ⟨hlow, hhigh⟩
  refine h ?_
  rw [Text.fitsInt64, Bool.and_eq_true, decide_eq_true_eq, decide_eq_true_eq]
  simp only [Word.negative64]
  omega

/-- **A value that offers an integer** is read as that integer. -/
theorem dimension_of_offers {raw : Json} {n : Int} (h : Offers raw n) (default : UInt32) :
    dimension raw default = sizeOr n default := by
  cases h with
  | int n => rfl
  | float h =>
    rw [dimension, integerOf?, Scalar.truncate_of_valueOf h]
    rfl
  | text h =>
    rw [dimension, integerOf?, Text.lenientInt?_of_startsWith h]
    by_cases hword : Text.fitsInt64 n = true
    · rw [if_pos hword]
    · rw [if_neg hword, sizeOr_of_not_isSize (not_isSize_of_not_fitsInt64 hword)]

/-- **A value that offers none** stands for the default. -/
theorem dimension_of_not_offers {raw : Json} (h : ∀ n, ¬Offers raw n) (default : UInt32) :
    dimension raw default = default := by
  rw [dimension]
  split
  next n hread =>
    unfold integerOf? at hread
    split at hread
    next m => exact absurd (.int m) (h m)
    next x =>
      -- the value stands for no number, so its integer part is no size
      have hnone : Scalar.valueOf? x = none := by
        cases hvalue : Scalar.valueOf? x with
        | none => rfl
        | some q => exact absurd (.float hvalue) (h _)
      obtain rfl := Option.some.inj hread
      refine sizeOr_of_not_isSize ?_ default
      rintro ⟨hlow, hhigh⟩
      obtain hsmall | hlarge := Scalar.truncate_of_valueOf_eq_none hnone <;> omega
    next text => exact absurd (.text (Text.startsWith_of_lenientInt?_eq_some hread)) (h n)
    next => cases hread
  next => rfl

theorem SizeField.isSize_default (field : SizeField) : IsSize field.default.toNat := by
  cases field <;> exact ⟨by decide, by decide⟩

/-- What a size is read from: the integer that its value offers, if it is a size, and else the
default. -/
structure ReadFrom (raw? : Option Json) (default size : UInt32) : Prop where
  of_isSize : ∀ raw n, raw? = some raw → Offers raw n → IsSize n → (size.toNat : Int) = n
  otherwise : (∀ raw n, raw? = some raw → Offers raw n → ¬IsSize n) → size = default

theorem readFrom_none (default : UInt32) : ReadFrom none default default where
  of_isSize _ _ h := nomatch h
  otherwise _ := rfl

theorem readFrom_dimension (raw : Json) (default : UInt32) :
    ReadFrom (some raw) default (dimension raw default) where
  of_isSize raw' n hraw hoffers hsize := by
    obtain rfl := Option.some.inj hraw
    rw [dimension_of_offers hoffers, sizeOr_of_isSize hsize]
  otherwise h := by
    by_cases hoffers : ∃ n, Offers raw n
    · obtain ⟨n, hn⟩ := hoffers
      rw [dimension_of_offers hn, sizeOr_of_not_isSize (h raw n rfl hn)]
    · exact dimension_of_not_offers (not_exists.mp hoffers) default

theorem ReadFrom.isSize {raw? : Option Json} {default size : UInt32}
    (h : ReadFrom raw? default size) (hdefault : IsSize default.toNat) : IsSize size.toNat := by
  by_cases hread : ∃ raw n, raw? = some raw ∧ Offers raw n ∧ IsSize n
  · obtain ⟨raw, n, hraw, hoffers, hsize⟩ := hread
    rw [h.of_isSize raw n hraw hoffers hsize]
    exact hsize
  · rw [h.otherwise fun raw n hraw hoffers hsize => hread ⟨raw, n, hraw, hoffers, hsize⟩]
    exact hdefault

/-! ### The last value counts -/

/-- Values with the keys that they are given for, in order. -/
abbrev Given := List (Option String × Json)

/-- The last value that was given for a key. -/
def Given.last? (given : Given) (key : String) : Option Json :=
  (given.filter fun member => member.1 == some key).getLast?.map Prod.snd

theorem Given.last?_concat (given : Given) (member : Option String × Json) (key : String) :
    last? (given ++ [member]) key
      = if member.1 = some key then some member.2 else last? given key := by
  rw [last?, List.filter_append, List.filter_singleton]
  by_cases h : member.1 = some key
  · rw [if_pos h, h, beq_self_eq_true, cond_true, List.getLast?_concat]
    rfl
  · rw [if_neg h, beq_eq_false_iff_ne.mpr h, cond_false, List.append_nil, last?]

/-- The settings in which each field goes by the last value of its own key, and is left alone
without one. -/
def withLast (s : Settings) (last? : String → Option Json) : Settings where
  sceneW := (last? "sceneW").elim s.sceneW (dimension · 1920)
  sceneH := (last? "sceneH").elim s.sceneH (dimension · 1080)
  defaultFont := (last? "defaultFont").elim s.defaultFont textOf
  titleSize := (last? "titleSize").elim s.titleSize (dimension · 192)
  subtitleSize := (last? "subtitleSize").elim s.subtitleSize (dimension · 96)
  marker := (last? "marker").elim s.marker (flag · true)
  prefetch := (last? "prefetch").elim s.prefetch (flag · true)

theorem setMember_withLast (s : Settings) (given : Given) (member : Option String × Json) :
    (s.withLast given.last?).setMember member = s.withLast (Given.last? (given ++ [member])) := by
  obtain ⟨_ | key, raw⟩ := member
  · have hlast : Given.last? (given ++ [(none, raw)]) = given.last? := by
      funext key
      rw [Given.last?_concat, if_neg (by simp)]
    rw [hlast]
    rfl
  · have hlast (key' : String) : Given.last? (given ++ [(some key, raw)]) key'
        = if key = key' then some raw else given.last? key' := by
      rw [Given.last?_concat]
      simp only [Option.some.injEq]
    rw [setMember, withLast, withLast]
    simp only [hlast]
    unfold setJson?
    split
    next => rfl
    next => rfl
    next => rfl
    next => rfl
    next => rfl
    next => rfl
    next => rfl
    next h₁ h₂ h₃ h₄ h₅ h₆ h₇ =>
      rw [if_neg h₁, if_neg h₂, if_neg h₃, if_neg h₄, if_neg h₅, if_neg h₆, if_neg h₇]
      rfl

/-- **Each field goes by the last value for its own key.** -/
theorem foldl_setMember (s : Settings) (given : Given) :
    given.foldl setMember s = s.withLast given.last? := by
  induction given using List.reverseRecOn with
  | nil => rfl
  | append_singleton given member ih =>
    rw [List.foldl_append, ih, List.foldl_cons, List.foldl_nil, setMember_withLast]

/-- A size goes by the last value for its key. -/
theorem readFrom_withLast (last? : String → Option Json) (field : SizeField) :
    ReadFrom (last? field.key) field.default (field.get (withLast {} last?)) := by
  have hfield : field.get (withLast {} last?)
      = (last? field.key).elim field.default (dimension · field.default) := by
    cases field <;> rfl
  rw [hfield]
  cases last? field.key with
  | none => exact readFrom_none _
  | some raw => exact readFrom_dimension raw _

/-- Without two values for one key, the order of the values makes no difference. -/
theorem Given.last?_eq_of_perm {given given' : Given} (h : given.Perm given')
    (hkeys : (given.map Prod.fst).Nodup) (key : String) : given.last? key = given'.last? key := by
  have hfilter := h.filter fun member => member.1 == some key
  have hlength : (given.filter fun member => member.1 == some key).length ≤ 1 := by
    rw [← List.countP_eq_length_filter]
    have hcount := List.nodup_iff_count_le_one.mp hkeys (some key)
    rw [List.count, List.countP_map] at hcount
    exact hcount
  rw [last?, last?]
  congr 1
  generalize given.filter _ = values at hfilter hlength
  generalize given'.filter _ = values' at hfilter
  match values, hlength with
  | [], _ => rw [List.nil_perm.mp hfilter]
  | [member], _ => rw [List.singleton_perm.mp hfilter]

/-- **The order of the values** makes no difference as long as no key has two of them. -/
theorem foldl_setMember_of_perm (s : Settings) {given given' : Given} (h : given.Perm given')
    (hkeys : (given.map Prod.fst).Nodup) : given.foldl setMember s = given'.foldl setMember s := by
  rw [foldl_setMember, foldl_setMember, funext (Given.last?_eq_of_perm h hkeys)]

/-! ### Edits -/

/-- One edit from a form: whether there is such a key, and the settings afterwards. -/
def edit (s : Settings) (key raw : String) : Bool × Settings :=
  match s.set? key raw with
  | some s => (true, s)
  | none => (false, s)

/-- The settings after some edits. -/
def editAll (s : Settings) (edits : List (String × String)) : Settings :=
  edits.foldl (fun s (key, raw) => (s.edit key raw).2) s

/-- The values that some edits give. -/
def givenBy (edits : List (String × String)) : Given :=
  edits.map fun (key, raw) => (some key, .string (some raw))

theorem edit_snd (s : Settings) (key raw : String) :
    (s.edit key raw).2 = s.setMember (some key, .string (some raw)) := by
  rw [edit, set?, setMember]
  cases s.setJson? key (.string (some raw)) <;> rfl

theorem editAll_eq (s : Settings) (edits : List (String × String)) :
    s.editAll edits = (givenBy edits).foldl setMember s := by
  rw [editAll, givenBy, List.foldl_map]
  congr 1
  funext s ⟨key, raw⟩
  exact edit_snd s key raw

/-- **Edits of different keys** may come in any order. -/
theorem edit_comm (s : Settings) {key key' : String} (hkeys : key ≠ key') (raw raw' : String) :
    ((s.edit key raw).2.edit key' raw').2 = ((s.edit key' raw').2.edit key raw).2 := by
  have hnodup : ((givenBy [(key, raw), (key', raw')]).map Prod.fst).Nodup := by
    simp [givenBy, hkeys]
  have hswap := foldl_setMember_of_perm s (List.Perm.swap ..).symm hnodup
  simp only [edit_snd]
  exact hswap

/-- A key is known if it is the name of a field. -/
theorem isSome_setJson? (s : Settings) (key : String) (raw : Json) :
    (s.setJson? key raw).isSome = fieldNames.contains key := by
  unfold setJson?
  split
  next => rfl
  next => rfl
  next => rfl
  next => rfl
  next => rfl
  next => rfl
  next => rfl
  next h₁ h₂ h₃ h₄ h₅ h₆ h₇ =>
    have hunknown : key ∉ fieldNames := by
      rw [fieldNames]
      simp only [List.mem_cons, List.not_mem_nil, or_false]
      rintro (h | h | h | h | h | h | h)
      exacts [h₁ h, h₂ h, h₅ h, h₃ h, h₄ h, h₆ h, h₇ h]
    exact (Bool.eq_false_iff.mpr fun h => hunknown (List.contains_iff_mem.mp h)).symm

theorem edit_fst (s : Settings) (key raw : String) :
    (s.edit key raw).1 = fieldNames.contains key := by
  rw [← s.isSome_setJson? key (.string (some raw)), edit, set?]
  cases s.setJson? key (.string (some raw)) <;> rfl

/-- **An edit of an unknown key** is refused and changes nothing. -/
theorem edit_of_unknown (s : Settings) {key : String} (raw : String) (h : key ∉ fieldNames) :
    s.edit key raw = (false, s) := by
  have hnone : s.set? key raw = none := by
    have hknown := s.isSome_setJson? key (.string (some raw))
    rw [Bool.eq_false_iff.mpr fun hkey => h (List.contains_iff_mem.mp hkey)] at hknown
    exact Option.not_isSome_iff_eq_none.mp (Bool.eq_false_iff.mp hknown)
  rw [edit, hnone]

/-! ### Integers, as numbers and as texts -/

/-- The digits of an integer, behind its sign. -/
private theorem toList_toString (n : Int) :
    (toString n).toList = Json.integerText (decide (n < 0)) (Nat.toDigits 10 n.natAbs) := by
  rw [Int.toString_eq_repr, Int.repr_eq_if, Json.integerText]
  by_cases hn : n < 0
  · have habs : (-n).toNat = n.natAbs := by omega
    rw [if_neg (by omega), if_pos (decide_eq_true hn), String.toList_append, Nat.toList_repr, habs]
    rfl
  · have habs : n.toNat = n.natAbs := by omega
    rw [if_pos (by omega), if_neg (by rwa [decide_eq_true_eq]), Nat.toList_repr, habs]

/-- An integer is made up of its sign and its digits. -/
private theorem signed_toDigits (n : Int) :
    (if decide (n < 0) = true then -(Nat.ofDigitChars 10 (Nat.toDigits 10 n.natAbs) 0 : Int)
      else Nat.ofDigitChars 10 (Nat.toDigits 10 n.natAbs) 0) = n := by
  rw [Nat.ofDigitChars_toDigits (by decide) (by decide)]
  simp only [decide_eq_true_eq]
  split <;> omega

/-- The spelling of an integer starts with it. -/
private theorem startsWith_integerText {digits : List Char}
    (hdigits : ∀ d ∈ digits, Text.isDigit d = true) (hne : digits ≠ []) (negative : Bool) :
    Text.StartsWithInteger (Json.integerText negative digits)
      (if negative = true then -(Nat.ofDigitChars 10 digits 0 : Int)
        else Nat.ofDigitChars 10 digits 0) := by
  have hstarts {sign : List Char} (hsign : Text.IsSign sign) :
      Text.StartsWithInteger (sign ++ (digits ++ [])) (Text.signedValue sign digits) :=
    @Text.StartsWithInteger.intro [] _ _ _ rfl hsign ⟨hdigits, nofun⟩ hne
  rw [List.append_nil] at hstarts
  cases negative with
  | false => exact hstarts .none
  | true => exact hstarts .minus

/-- The text of an integer offers it. -/
private theorem offers_toString (n : Int) : Offers (.string (some (toString n))) n := by
  have hstarts := startsWith_integerText (fun _ => Text.isDigit_of_mem_toDigits)
    (Nat.toDigits_ne_nil (b := 10) (n := n.natAbs)) (decide (n < 0))
  rw [signed_toDigits, ← toList_toString] at hstarts
  exact .text hstarts

/-- **An integer as a number** is read as itself, or stands for the default if it is no size. -/
theorem dimension_integer {n : Int} {raw : Json}
    (h : Json.parseChecked? (toString n).toList = some raw) (default : UInt32) :
    dimension raw default = sizeOr n default := by
  rw [toList_toString] at h
  obtain ⟨value, rfl, hvalue⟩ := Json.eq_number_of_parseChecked?
    (fun _ => Text.isDigit_of_mem_toDigits) Nat.toDigits_ne_nil h
  obtain rfl | ⟨x, rfl, hx⟩ :=
    Json.Spelling.value?_integer_cases (fun _ => Text.isDigit_of_mem_toDigits) hvalue
  · rw [signed_toDigits]
    rfl
  · rw [Nat.ofDigitChars_toDigits (by decide) (by decide)] at hx
    rw [dimension, integerOf?]
    dsimp only
    have hsize : ¬IsSize n ∧ ¬IsSize (Scalar.truncate x) := by
      unfold IsSize
      simp only [decide_eq_true_eq, decide_eq_false_iff_not] at hx
      omega
    rw [sizeOr_of_not_isSize hsize.1, sizeOr_of_not_isSize hsize.2]

/-- **An integer as a number and as a text** has the same effect. -/
theorem setJson?_integer {n : Int} {raw : Json}
    (h : Json.parseChecked? (toString n).toList = some raw) (s : Settings) (field : SizeField) :
    s.setJson? field.key raw = s.set? field.key (toString n) := by
  have hsame (default : UInt32) :
      dimension raw default = dimension (.string (some (toString n))) default := by
    rw [dimension_integer h, dimension_of_offers (offers_toString n)]
  rw [set?]
  cases field <;> exact congrArg some (by rw [hsame])

/-! ### Loading -/

theorem fromUTF8?_toUTF8 (text : String) : String.fromUTF8? text.toUTF8 = some text := by
  rw [String.fromUTF8?]
  split
  next => rfl
  next hvalid => exact absurd text.isValidUTF8 hvalid

/-- An object of settings is loaded, whatever it holds. -/
theorem ofBytes_eq_ok {bytes : ByteArray} {text : String} {members : Given}
    (htext : String.fromUTF8? bytes = some text)
    (hmembers : Json.parseChecked? text.toList = some (.object members)) :
    ofBytes bytes = .ok (members.foldl setMember {}) := by
  rw [ofBytes, htext]
  dsimp only
  rw [ofJson, ofChars, hmembers]

/-- Sizes in their range pass the check. -/
theorem checkSide_eq_ok {name : String} {value : UInt32} (h : IsSize value.toNat) :
    checkSide name value = .ok () := by
  obtain ⟨hlow, hhigh⟩ := h
  rw [checkSide, if_neg]
  rintro (rfl | hlarge)
  · exact absurd hlow (by decide)
  · rw [UInt32.lt_iff_toNat_lt] at hlarge
    have : (65535 : UInt32).toNat = 65535 := rfl
    omega

end Settings

namespace Render

open Settings

/-- Settings that have been checked make a runner. -/
theorem Runner.exists_make_eq_ok {settings : Settings} (h : settings.validate = .ok ())
    (storage : Asset.Storage) :
    ∃ r, Runner.make settings storage = .ok r ∧ r.settings = settings := by
  rw [make]
  split
  next => exact ⟨_, rfl, rfl⟩
  next e he => rw [h] at he; cases he

/-- **Settings that were read leniently can be used.** Every object of settings is loaded, and
after any edits each field goes by the last value that was given for its own key. A size is the
integer that this value offers, if it lies in `1..65535`, and else the default; so all sizes lie in
that range, the check passes, and runners and surfaces can be made. The order of the entries of an
object makes no difference, and neither does that of edits of different keys. An edit of a key that
is none is refused and changes nothing. And an integer has the same effect as a number, if it is
accepted as one, and as the text of its digits. -/
theorem lenient_settings_usable :
    (∀ (bytes : ByteArray) (text : String) (members : Given),
      String.fromUTF8? bytes = some text →
      Json.parseChecked? text.toList = some (.object members) →
      ∀ edits : List (String × String), ∃ loaded, ofBytes bytes = .ok loaded ∧
        let s := loaded.editAll edits
        let last? := Given.last? (members ++ givenBy edits)
        s = withLast {} last? ∧
        (∀ field : SizeField, IsSize (field.get s).toNat ∧
          ReadFrom (last? field.key) field.default (field.get s)) ∧
        s.validate = .ok () ∧
        (∀ storage, ∃ r, Runner.make s storage = .ok r ∧ r.settings = s) ∧
        ∃ surface, Surface.blank s.sceneW.toNat s.sceneH.toNat = .ok surface) ∧
    (∀ (bytes bytes' : ByteArray) (text text' : String) (members members' : Given),
      String.fromUTF8? bytes = some text → String.fromUTF8? bytes' = some text' →
      Json.parseChecked? text.toList = some (.object members) →
      Json.parseChecked? text'.toList = some (.object members') →
      members.Perm members' → (members.map Prod.fst).Nodup →
      ofBytes bytes = ofBytes bytes') ∧
    (∀ (s : Settings) (key key' raw raw' : String), key ≠ key' →
      ((s.edit key raw).2.edit key' raw').2 = ((s.edit key' raw').2.edit key raw).2) ∧
    (∀ (s : Settings) (key raw : String), (s.edit key raw).1 = fieldNames.contains key ∧
      (key ∉ fieldNames → s.edit key raw = (false, s))) ∧
    ∀ (n : Int) (raw : Json), Json.parseChecked? (toString n).toList = some raw →
      ∀ (s : Settings) (field : SizeField),
        s.setJson? field.key raw = s.set? field.key (toString n) := by
  refine ⟨fun bytes text members htext hmembers edits => ?usable,
    fun bytes bytes' text text' members members' htext htext' hmembers hmembers' hperm hkeys =>
      ?order, fun s key key' raw raw' hkeys => s.edit_comm hkeys raw raw',
    fun s key raw => ⟨s.edit_fst key raw, s.edit_of_unknown raw⟩,
    fun n raw hraw s field => setJson?_integer hraw s field⟩
  case usable =>
    refine ⟨_, ofBytes_eq_ok htext hmembers, ?_⟩
    intro s last?
    have hs : s = withLast {} last? := by
      rw [← foldl_setMember, List.foldl_append, ← editAll_eq]
    have hread (field : SizeField) : ReadFrom (last? field.key) field.default (field.get s) :=
      hs ▸ readFrom_withLast last? field
    have hsize (field : SizeField) : IsSize (field.get s).toNat :=
      (hread field).isSize field.isSize_default
    have hwidth : IsSize s.sceneW.toNat := hsize .sceneW
    have hheight : IsSize s.sceneH.toNat := hsize .sceneH
    have hvalid : s.validate = .ok () :=
      bind_eq_ok_iff.mpr ⟨(), checkSide_eq_ok hwidth, checkSide_eq_ok hheight⟩
    obtain ⟨surface, hsurface, -⟩ := Surface.exists_blank_eq_ok
      (Settings.sides_of_validate_eq_ok hvalid).1 (Settings.sides_of_validate_eq_ok hvalid).2
    exact ⟨hs, fun field => ⟨hsize field, hread field⟩, hvalid,
      Runner.exists_make_eq_ok hvalid, surface, hsurface⟩
  case order =>
    rw [ofBytes_eq_ok htext hmembers, ofBytes_eq_ok htext' hmembers',
      foldl_setMember_of_perm {} hperm hkeys]

/-- A form that starts from no settings: a width with its unit, a height that is too large, a size
that is none and a key that is none; and a width as a number. -/
theorem lenient_settings_usable_form :
    let text := "\x7b\x7d"
    let edits := [("sceneW", "640px"), ("sceneH", "70000"), ("titleSize", "-4"), ("scene", "1")]
    (∃ loaded, ofBytes text.toUTF8 = .ok loaded ∧
      let s := loaded.editAll edits
      s.sceneW.toNat = 640 ∧ s.sceneH = 1080 ∧ s.validate = .ok ()) ∧
    edit {} "scene" "1" = (false, {}) ∧
    setJson? {} "sceneW" (.number (some (.int 1280)))
      = set? {} "sceneW" (toString (1280 : Int)) := by
  intro text edits
  have hempty : Json.parseChecked? "\x7b\x7d".toList = some (.object []) := by rfl
  have hnumber : Json.parseChecked? (toString (1280 : Int)).toList
      = some (.number (some (.int 1280))) := by rfl
  obtain ⟨husable, -, -, hunknown, hinteger⟩ := lenient_settings_usable
  obtain ⟨loaded, hloaded, -, hsizes, hvalid, -⟩ :=
    husable text.toUTF8 text [] (Settings.fromUTF8?_toUTF8 text) hempty edits
  have hwidth : Text.StartsWithInteger "640px".toList 640 :=
    @Text.StartsWithInteger.intro [] [] ['6', '4', '0'] ['p', 'x'] rfl .none
      ⟨List.all_eq_true.mp rfl, fun c hc => by cases hc; rfl⟩ nofun
  have hheight : Text.lenientInt? "70000".toList = some 70000 := by decide +kernel
  refine ⟨⟨loaded, hloaded, ?_, ?_, hvalid⟩, (hunknown {} "scene" "1").2 (by decide),
    hinteger 1280 _ hnumber {} .sceneW⟩
  · exact_mod_cast (hsizes .sceneW).2.of_isSize _ 640 rfl (.text hwidth) ⟨by decide, by decide⟩
  · refine (hsizes .sceneH).2.otherwise fun raw n hraw hoffers hsize => ?_
    cases hraw
    cases hoffers with
    | text hstarts =>
      have hn := (Text.lenientInt?_of_startsWith hstarts).symm.trans hheight
      rw [Option.ite_none_right_eq_some] at hn
      rw [Option.some.inj hn.2] at hsize
      exact absurd hsize.2 (by decide)

end Render

end SceneCanvas
