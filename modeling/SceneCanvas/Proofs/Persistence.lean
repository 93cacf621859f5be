import SceneCanvas.Proofs.Lenient
import SceneCanvas.Proofs.Printing

/-!
# Settings that are saved and loaded again

Settings are written with every field, and read leniently. The reader finds the members that were
written (`Settings.forall₂_members`), so all that can happen to settings on the way is that a size
which is none falls back to its default: `Settings.ofJson_toJson` says that they come back as
`Settings.repaired`. Sizes are repaired once and for all, and the sizes of settings that were loaded
need no repair, whatever is entered into a form afterwards (`Settings.isSize_get_editAll`).
-/

namespace SceneCanvas.Settings

/-! ### What the reader finds -/

/-- The members that settings are written as. -/
def given (s : Settings) : Given :=
  [(some "sceneW", .number (some (.int s.sceneW.toNat))),
    (some "sceneH", .number (some (.int s.sceneH.toNat))),
    (some "defaultFont", .string (some s.defaultFont)),
    (some "titleSize", .number (some (.int s.titleSize.toNat))),
    (some "subtitleSize", .number (some (.int s.subtitleSize.toNat))),
    (some "marker", .bool s.marker), (some "prefetch", .bool s.prefetch)]

theorem forall₂_members (s : Settings) : List.Forall₂ Json.WrittenMember s.members s.given := by
  have hsize (n : UInt32) :
      Json.Written (toString n.toNat).toList (.number (some (.int n.toNat))) :=
    Json.written_integer (Nat.lt_trans n.toNat_lt (by decide))
  exact .cons ⟨rfl, hsize s.sceneW⟩ <| .cons ⟨rfl, hsize s.sceneH⟩ <|
    .cons ⟨rfl, Json.written_quote s.defaultFont⟩ <| .cons ⟨rfl, hsize s.titleSize⟩ <|
    .cons ⟨rfl, hsize s.subtitleSize⟩ <| .cons ⟨rfl, Json.written_bool s.marker⟩ <|
    .cons ⟨rfl, Json.written_bool s.prefetch⟩ .nil

/-- The settings with each size that is none replaced by its default. -/
def repaired (s : Settings) : Settings :=
  { s with
    sceneW := sizeOr s.sceneW.toNat 1920
    sceneH := sizeOr s.sceneH.toNat 1080
    titleSize := sizeOr s.titleSize.toNat 192
    subtitleSize := sizeOr s.subtitleSize.toNat 96 }

/-- **Settings come back repaired**, and otherwise as they were. -/
theorem ofJson_toJson (s : Settings) : ofJson s.toJson = .ok s.repaired := by
  have hmembers : s.members ≠ [] := List.cons_ne_nil _ _
  have hgiven : s.given.foldl setMember {} = s.repaired := rfl
  rw [ofJson, toJson, String.toList_ofList, ofChars, toChars,
    Json.parseChecked?_object s.forall₂_members hmembers]
  exact congrArg Except.ok hgiven

/-! ### Sizes that need no repair -/

theorem sizeOr_toNat {n : UInt32} (h : IsSize n.toNat) (default : UInt32) :
    sizeOr n.toNat default = n := by
  have hvalue := sizeOr_of_isSize h default
  exact UInt32.toNat_inj.mp (Int.ofNat_inj.mp hvalue)

theorem get_repaired (s : Settings) (field : SizeField) :
    field.get s.repaired = sizeOr (field.get s).toNat field.default := by
  cases field <;> rfl

theorem isSize_get_repaired (s : Settings) (field : SizeField) :
    IsSize (field.get s.repaired).toNat := by
  rw [get_repaired]
  by_cases h : IsSize (field.get s).toNat
  · rwa [sizeOr_toNat h]
  · rw [sizeOr_of_not_isSize h]
    exact field.isSize_default

theorem repaired_eq_self_iff {s : Settings} :
    s.repaired = s ↔ ∀ field : SizeField, IsSize (field.get s).toNat := by
  constructor
  · intro h field
    rw [← h]
    exact s.isSize_get_repaired field
  · intro h
    have hwidth : IsSize s.sceneW.toNat := h .sceneW
    have hheight : IsSize s.sceneH.toNat := h .sceneH
    have htitle : IsSize s.titleSize.toNat := h .titleSize
    have hsubtitle : IsSize s.subtitleSize.toNat := h .subtitleSize
    rw [repaired, sizeOr_toNat hwidth, sizeOr_toNat hheight, sizeOr_toNat htitle,
      sizeOr_toNat hsubtitle]

/-- **Settings whose sizes are sizes** come back as they were. -/
theorem ofJson_toJson_of_isSize {s : Settings}
    (h : ∀ field : SizeField, IsSize (field.get s).toNat) : ofJson s.toJson = .ok s := by
  rw [ofJson_toJson, repaired_eq_self_iff.mpr h]

/-- What was loaded is an object of settings. -/
theorem exists_given_of_ofBytes_eq_ok {bytes : ByteArray} {loaded : Settings}
    (h : ofBytes bytes = .ok loaded) : ∃ given : Given, loaded = given.foldl setMember {} := by
  rw [ofBytes] at h
  split at h
  next text =>
    rw [ofJson, ofChars] at h
    split at h
    next => cases h
    next members _ => exact ⟨members, (Except.ok.inj h).symm⟩
    next => cases h
  next => cases h

/-- **Sizes that were loaded**, and edited from a form, are sizes. -/
theorem isSize_get_editAll {bytes : ByteArray} {loaded : Settings} (h : ofBytes bytes = .ok loaded)
    (edits : List (String × String)) (field : SizeField) :
    IsSize (field.get (loaded.editAll edits)).toNat := by
  obtain ⟨given, rfl⟩ := exists_given_of_ofBytes_eq_ok h
  rw [editAll_eq, ← List.foldl_append, foldl_setMember]
  exact (readFrom_withLast _ field).isSize field.isSize_default

/-! ### Saving and loading -/

/-- **Saved settings are loaded again.** Any settings can be saved and loaded. They come back
unchanged just if all of their sizes lie in `1..65535`. Of settings for which some do not, exactly
these sizes come back as their defaults, and every other field as it was, so that saving and loading
once more changes nothing. Settings that were loaded from a file and then edited from a form come
back unchanged. -/
theorem saved_settings_reload :
    (∀ s : Settings, ∃ s', ofJson s.toJson = .ok s' ∧ ofBytes s.toJson.toUTF8 = .ok s' ∧
      (s' = s ↔ ∀ field : SizeField, IsSize (field.get s).toNat) ∧
      (∀ field : SizeField,
        (IsSize (field.get s).toNat → field.get s' = field.get s) ∧
        (¬IsSize (field.get s).toNat → field.get s' = field.default)) ∧
      s'.defaultFont = s.defaultFont ∧ s'.marker = s.marker ∧ s'.prefetch = s.prefetch ∧
      ofJson s'.toJson = .ok s') ∧
    ∀ (bytes : ByteArray) (loaded : Settings), ofBytes bytes = .ok loaded →
      ∀ edits : List (String × String),
        ofJson (loaded.editAll edits).toJson = .ok (loaded.editAll edits) := by
  constructor
  · intro s
    have hbytes : ofBytes s.toJson.toUTF8 = .ok s.repaired := by
      rw [ofBytes, fromUTF8?_toUTF8]
      exact s.ofJson_toJson
    have hsizes (field : SizeField) :
        (IsSize (field.get s).toNat → field.get s.repaired = field.get s) ∧
        (¬IsSize (field.get s).toNat → field.get s.repaired = field.default) := by
      rw [get_repaired]
      exact ⟨fun h => sizeOr_toNat h _, fun h => sizeOr_of_not_isSize h _⟩
    exact ⟨s.repaired, s.ofJson_toJson, hbytes, repaired_eq_self_iff, hsizes, rfl, rfl, rfl,
      ofJson_toJson_of_isSize s.isSize_get_repaired⟩
  · intro bytes loaded hloaded edits
    exact ofJson_toJson_of_isSize (isSize_get_editAll hloaded edits)

/-- Settings with no width and a font name with quotes, a line break and what looks like an escape;
and a form that starts from no settings. -/
theorem saved_settings_reload_quotes :
    let s : Settings :=
      { sceneW := 0, titleSize := 65535, defaultFont := "\"1\\u0041\n", marker := false }
    let edits := [("sceneW", "640px"), ("defaultFont", "\"")]
    (∃ s', ofJson s.toJson = .ok s' ∧ s' ≠ s ∧ s'.sceneW = 1920 ∧ s'.titleSize = 65535 ∧
      s'.defaultFont = s.defaultFont) ∧
    ∃ loaded, ofBytes "\x7b\x7d".toUTF8 = .ok loaded ∧
      ofJson (loaded.editAll edits).toJson = .ok (loaded.editAll edits) := by
  intro s edits
  have hwidth : ¬IsSize (SizeField.sceneW.get s).toNat := by
    rintro ⟨hlow, -⟩
    exact absurd hlow (by decide)
  have htitle : IsSize (SizeField.titleSize.get s).toNat := ⟨by decide, by decide⟩
  have hempty : Json.parseChecked? "\x7b\x7d".toList = some (.object []) := rfl
  have hloaded := ofBytes_eq_ok (fromUTF8?_toUTF8 "\x7b\x7d") hempty
  obtain ⟨s', hs', -, hsame, hsizes, hfont, -⟩ := saved_settings_reload.1 s
  refine ⟨⟨s', hs', fun heq => hwidth (hsame.mp heq .sceneW), (hsizes .sceneW).2 hwidth,
    (hsizes .titleSize).1 htitle, hfont⟩, _, hloaded, saved_settings_reload.2 _ _ hloaded edits⟩

end SceneCanvas.Settings
