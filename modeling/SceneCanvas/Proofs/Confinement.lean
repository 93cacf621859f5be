import Mathlib.Data.List.Basic
import SceneCanvas.Asset.Cache
import SceneCanvas.Proofs.Text

/-!
# Assets stay below their root

A path is looked at segment by segment, and the first segment that climbs refuses the whole path, so
that what is left are segments that lead from a directory to something in it
(`Asset.properSegments_eq`). A path of such segments alone, one slash between two of them, is in
normal form (`Asset.IsNormal`).

* `Asset.normalizePath_eq_ok_iff`: which paths have a normal form, and which one.
* `Asset.IsNormal.normalizePath_eq`: normal forms are what normalising leaves alone.
* `Asset.Place.ofPath_join`: joined to a root, a normal form leads below the place of the root.
* `Asset.Storage.below_congr`: a rooted storage asks its file system for nothing else.
* `Asset.normalized_paths_confined` puts these together.
-/

namespace SceneCanvas.Asset

open Text

/-! ### Segments -/

/-- The segments of a path that name something. -/
def namedSegments (path : String) : List (List Char) := (rawSegments path.toList).filter isProper

/-- The segment leads from a directory to something in it. -/
structure IsDownward (segment : List Char) : Prop where
  ne_nil : segment ≠ []
  ne_dot : segment ≠ ['.']
  ne_climb : segment ≠ climb
  notMem_slash : '/' ∉ segment
  notMem_backslash : '\\' ∉ segment

/-- A path in normal form: segments that lead downward, with a slash between two of them. -/
structure IsNormal (path : String) : Prop where
  notMem_backslash : '\\' ∉ path.toList
  isDownward : ∀ segment ∈ splitWhere (· == '/') path.toList, IsDownward segment

theorem isProper_iff {segment : List Char} :
    isProper segment = true ↔ segment ≠ [] ∧ segment ≠ ['.'] := by
  simp [isProper]

theorem IsDownward.isProper_eq {segment : List Char} (h : IsDownward segment) :
    isProper segment = true :=
  isProper_iff.mpr ⟨h.ne_nil, h.ne_dot⟩

/-- One segment that climbs refuses a path, and the segments that name nothing are left out. -/
theorem properSegments_eq (segments : List (List Char)) :
    properSegments segments
      = if climb ∈ segments then .error .pathClimbs else .ok (segments.filter isProper) := by
  induction segments with
  | nil => rfl
  | cons segment segments ih =>
    rw [properSegments, ← climb]
    by_cases hproper : isProper segment = true
    · by_cases hclimb : segment = climb
      · rw [hproper, if_neg (by decide), if_pos hclimb, if_pos (hclimb ▸ List.mem_cons_self)]
      · have hmem : climb ∈ segment :: segments ↔ climb ∈ segments := by
          rw [List.mem_cons, or_iff_right (Ne.symm hclimb)]
        rw [hproper, if_neg (by decide), if_neg hclimb, ih, if_congr hmem rfl rfl,
          List.filter_cons_of_pos hproper]
        split <;> rfl
    · have hne : climb ≠ segment := fun h => hproper (h ▸ rfl)
      have hmem : climb ∈ segment :: segments ↔ climb ∈ segments := by
        rw [List.mem_cons, or_iff_right hne]
      rw [Bool.eq_false_iff.mpr hproper, if_pos (by decide), ih, if_congr hmem rfl rfl,
        List.filter_cons_of_neg hproper]

/-- There is no backslash among forward slashes. -/
theorem notMem_map_forwardSlash (cs : List Char) : '\\' ∉ cs.map forwardSlash := by
  intro h
  obtain ⟨c, -, hc⟩ := List.mem_map.mp h
  rw [forwardSlash] at hc
  split at hc
  next => exact absurd hc (by decide)
  next hne => exact hne hc

theorem map_forwardSlash_of_notMem {cs : List Char} (h : '\\' ∉ cs) : cs.map forwardSlash = cs := by
  have heq : ∀ c ∈ cs, forwardSlash c = id c := fun c hc => if_neg fun hslash : c = '\\' =>
    h (hslash ▸ hc)
  rw [List.map_congr_left heq, List.map_id]

/-- A segment that names something, and does not climb, leads downward. -/
theorem isDownward_of_mem_namedSegments {path : String} (hclimb : climb ∉ rawSegments path.toList) :
    ∀ segment ∈ namedSegments path, IsDownward segment := by
  intro segment h
  obtain ⟨hraw, hproper⟩ := List.mem_filter.mp h
  obtain ⟨hnil, hdot⟩ := isProper_iff.mp hproper
  have hchars := of_mem_splitWhere hraw
  refine ⟨hnil, hdot, fun heq => hclimb (heq ▸ hraw), fun hc => ?_, fun hc => ?_⟩
  · exact absurd (hchars _ hc).2 (by decide)
  · exact notMem_map_forwardSlash _ (hchars _ hc).1

/-! ### Normal forms -/

/-- What is wrong with a path, in the order in which it is noticed, or else its normal form. -/
theorem normalizeChars_eq (path : List Char) :
    normalizeChars path
      = if (path.map forwardSlash).head? = some '/' then .error .pathAbsolute
        else if climb ∈ rawSegments path then .error .pathClimbs
        else if (rawSegments path).filter isProper = [] then .error .pathEmpty
        else .ok (['/'].intercalate ((rawSegments path).filter isProper)) := by
  rw [normalizeChars, properSegments_eq]
  split
  next => rfl
  next =>
    split
    next => rfl
    next =>
      cases (rawSegments path).filter isProper <;> rfl

/-- **Which paths have a normal form**, and which one. -/
theorem normalizePath_eq_ok_iff {path normal : String} :
    normalizePath path = .ok normal ↔
      (path.toList.map forwardSlash).head? ≠ some '/' ∧ climb ∉ rawSegments path.toList ∧
        namedSegments path ≠ [] ∧ normal.toList = ['/'].intercalate (namedSegments path) := by
  have hok (cs : List Char) : (Except.ok cs : Except SceneError _).map String.ofList = .ok normal
      ↔ normal.toList = cs := by
    change Except.ok (String.ofList cs) = .ok normal ↔ _
    rw [Except.ok.injEq, ← String.toList_inj, String.toList_ofList, eq_comm]
  rw [normalizePath, normalizeChars_eq, namedSegments]
  split
  next hhead => exact iff_of_false nofun fun h => h.1 hhead
  next hhead =>
    split
    next hclimb => exact iff_of_false nofun fun h => h.2.1 hclimb
    next hclimb =>
      split
      next hnil => exact iff_of_false nofun fun h => h.2.2.1 hnil
      next hne => rw [hok]; exact ⟨fun h => ⟨hhead, hclimb, hne, h⟩, fun h => h.2.2.2⟩

/-- Segments that lead downward are a path in normal form. -/
theorem splitWhere_of_isDownward {path : String} {segments : List (List Char)}
    (hne : segments ≠ []) (hsegments : ∀ segment ∈ segments, IsDownward segment)
    (hpath : path.toList = ['/'].intercalate segments) :
    splitWhere (· == '/') path.toList = segments := by
  rw [hpath]
  refine splitWhere_intercalate (p := (· == '/')) rfl hne fun segment hsegment c hc => ?_
  exact beq_eq_false_iff_ne.mpr fun heq => (hsegments segment hsegment).notMem_slash (heq ▸ hc)

theorem mem_of_mem_intercalate {s c : Char} {pieces : List (List Char)}
    (h : c ∈ [s].intercalate pieces) : c = s ∨ ∃ piece ∈ pieces, c ∈ piece := by
  induction pieces with
  | nil => cases h
  | cons piece pieces ih =>
    cases pieces with
    | nil => exact .inr ⟨piece, List.mem_cons_self, by rwa [List.intercalate_singleton] at h⟩
    | cons piece' pieces =>
      rw [List.intercalate_cons_cons, List.mem_append, List.mem_append, List.mem_singleton] at h
      obtain (h | h) | h := h
      · exact .inr ⟨piece, List.mem_cons_self, h⟩
      · exact .inl h
      · exact (ih h).imp_right fun ⟨piece, hpiece, hc⟩ =>
          ⟨piece, List.mem_cons_of_mem _ hpiece, hc⟩

theorem isNormal_of_isDownward {path : String} {segments : List (List Char)}
    (hne : segments ≠ []) (hsegments : ∀ segment ∈ segments, IsDownward segment)
    (hpath : path.toList = ['/'].intercalate segments) : IsNormal path where
  notMem_backslash h := by
    rw [hpath] at h
    obtain h | ⟨segment, hsegment, hc⟩ := mem_of_mem_intercalate h
    · exact absurd h (by decide)
    · exact (hsegments segment hsegment).notMem_backslash hc
  isDownward := by
    rw [splitWhere_of_isDownward hne hsegments hpath]
    exact hsegments

/-- What normalising gives is in normal form. -/
theorem isNormal_of_normalizePath_eq {path normal : String} (h : normalizePath path = .ok normal) :
    IsNormal normal := by
  obtain ⟨-, hclimb, hne, hnormal⟩ := normalizePath_eq_ok_iff.mp h
  exact isNormal_of_isDownward hne (isDownward_of_mem_namedSegments hclimb) hnormal

namespace IsNormal

variable {path : String} (h : IsNormal path)

include h

theorem rawSegments_eq : rawSegments path.toList = splitWhere (· == '/') path.toList := by
  rw [rawSegments, map_forwardSlash_of_notMem h.notMem_backslash]

theorem namedSegments_eq : namedSegments path = splitWhere (· == '/') path.toList := by
  rw [namedSegments, h.rawSegments_eq, List.filter_eq_self]
  exact fun segment hsegment => (h.isDownward segment hsegment).isProper_eq

/-- A normal form does not start with a slash: the segment before it would be empty. -/
theorem head?_ne : path.toList.head? ≠ some '/' := by
  intro hhead
  obtain ⟨cs, hcs⟩ := List.head?_eq_some_iff.mp hhead
  have hsplit := splitWhere_cons_of_pos (p := (· == '/')) (c := '/') rfl cs
  exact (h.isDownward [] (by rw [hcs, hsplit]; exact List.mem_cons_self)).ne_nil rfl

/-- A normal form does not end with a slash: the segment behind it would be empty. -/
theorem getLast?_ne : path.toList.getLast? ≠ some '/' := by
  intro hlast
  obtain ⟨cs, hcs⟩ := List.getLast?_eq_some_iff.mp hlast
  have hsplit := splitWhere_append_cons (p := (· == '/')) (s := '/') rfl cs []
  have hmem : [] ∈ splitWhere (· == '/') path.toList := by
    rw [hcs, hsplit]
    exact List.mem_append_right _ List.mem_cons_self
  exact (h.isDownward [] hmem).ne_nil rfl

/-- **Normalising leaves a normal form alone.** -/
theorem normalizePath_eq : normalizePath path = .ok path := by
  refine normalizePath_eq_ok_iff.mpr ⟨?_, ?_, ?_, ?_⟩
  · rw [map_forwardSlash_of_notMem h.notMem_backslash]
    exact h.head?_ne
  · rw [h.rawSegments_eq]
    exact fun hclimb => (h.isDownward _ hclimb).ne_climb rfl
  · rw [h.namedSegments_eq]
    exact splitWhere_ne_nil _
  · rw [h.namedSegments_eq, intercalate_splitWhere]

end IsNormal

/-- **Paths are normalised part by part.** -/
theorem normalizePath_append {path path' normal normal' : String}
    (h : normalizePath path = .ok normal) (h' : normalizePath path' = .ok normal') :
    normalizePath (path ++ "/" ++ path') = .ok (normal ++ "/" ++ normal') := by
  obtain ⟨hhead, hclimb, hne, hnormal⟩ := normalizePath_eq_ok_iff.mp h
  obtain ⟨-, hclimb', hne', hnormal'⟩ := normalizePath_eq_ok_iff.mp h'
  have hchars : (path ++ "/" ++ path').toList = path.toList ++ '/' :: path'.toList := by
    rw [String.toList_append, String.toList_append, List.append_assoc]
    rfl
  have hraw : rawSegments (path ++ "/" ++ path').toList
      = rawSegments path.toList ++ rawSegments path'.toList := by
    rw [hchars, rawSegments, List.map_append]
    exact splitWhere_append_cons (p := (· == '/')) rfl _ _
  have hnamed : namedSegments (path ++ "/" ++ path')
      = namedSegments path ++ namedSegments path' := by
    rw [namedSegments, hraw, List.filter_append, namedSegments, namedSegments]
  refine normalizePath_eq_ok_iff.mpr ⟨?_, ?_, ?_, ?_⟩
  · -- a path that is all slash would have no segment that names something
    cases hcs : path.toList with
    | nil => exact absurd (by rw [namedSegments, hcs]; rfl) hne
    | cons c cs =>
      rw [hcs] at hhead
      rw [hchars, hcs]
      exact hhead
  · rw [hraw]
    exact fun hmem => (List.mem_append.mp hmem).elim hclimb hclimb'
  · rw [hnamed]
    exact List.append_ne_nil_of_left_ne_nil hne _
  · rw [hnamed, intercalate_append '/' hne hne', String.toList_append, String.toList_append,
      hnormal, hnormal', List.append_assoc]
    rfl

/-! ### Places below a root -/

namespace Place

/-- The place that segments lead to, one below the other. -/
def descend (p : Place) (segments : List (List Char)) : Place :=
  { p with upward := segments.reverse ++ p.upward }

/-- Segments that lead downward are entered one below the other. -/
theorem foldl_enter_of_isDownward {segments : List (List Char)}
    (h : ∀ segment ∈ segments, IsDownward segment) (p : Place) :
    segments.foldl enter p = p.descend segments := by
  induction segments generalizing p with
  | nil => rfl
  | cons segment segments ih =>
    obtain ⟨hsegment, hsegments⟩ := List.forall_mem_cons.mp h
    have henter : p.enter segment = { p with upward := segment :: p.upward } := by
      rw [enter, hsegment.isProper_eq, if_neg hsegment.ne_climb]
      rfl
    rw [List.foldl_cons, henter, ih hsegments, descend, descend, List.reverse_cons,
      List.append_assoc]
    rfl

/-- Where a path starts is known from its first character. -/
theorem origin_append {cs : List Char} (hne : cs ≠ []) (after : List Char) :
    origin (cs ++ after) = origin cs := by
  obtain ⟨c, cs, rfl⟩ := List.exists_cons_of_ne_nil hne
  rfl

/-- What stands behind a slash is entered from where the text before the slash leads. -/
theorem foldl_enter_append_slash (p : Place) (before after : List Char) :
    (splitWhere (· == '/') (before ++ '/' :: after)).foldl enter p
      = (splitWhere (· == '/') after).foldl enter
          ((splitWhere (· == '/') before).foldl enter p) := by
  rw [splitWhere_append_cons (p := (· == '/')) rfl, List.foldl_append]

/-- The empty segment behind a last slash leads nowhere. -/
theorem foldl_enter_append_singleton (p : Place) (before : List Char) :
    (splitWhere (· == '/') (before ++ ['/'])).foldl enter p
      = (splitWhere (· == '/') before).foldl enter p :=
  foldl_enter_append_slash p before []

/-- **Joined to a root**, a path in normal form leads below the place of the root. -/
theorem ofPath_join (root : String) {path : String} (h : IsNormal path) :
    ofPath (Tree.join root path) = (ofPath root).descend (splitWhere (· == '/') path.toList) := by
  have hfold := foldl_enter_of_isDownward h.isDownward
  rw [Tree.join]
  split
  next hempty =>
    -- nothing stands before the path, which does not start with a slash
    obtain rfl := String.isEmpty_iff.mp hempty
    have horigin : origin path.toList = origin [] := by
      rw [origin, beq_eq_false_iff_ne.mpr h.head?_ne]
      rfl
    rw [ofPath, hfold, horigin]
    rfl
  next hempty =>
    have hne : root.toList ≠ [] := fun hnil =>
      hempty (String.isEmpty_iff.mpr (String.toList_eq_nil_iff.mp hnil))
    split
    next hslash =>
      obtain ⟨before, hbefore⟩ := List.getLast?_eq_some_iff.mp hslash
      rw [ofPath, String.toList_append, origin_append hne, ofPath, hbefore, List.append_assoc,
        List.singleton_append, foldl_enter_append_slash, foldl_enter_append_singleton, hfold]
    next =>
      have hchars : (root ++ "/" ++ path).toList = root.toList ++ '/' :: path.toList := by
        rw [String.toList_append, String.toList_append, List.append_assoc]
        rfl
      rw [ofPath, hchars, origin_append hne, foldl_enter_append_slash, hfold, ofPath]

end Place

/-! ### Storage below a root -/

namespace Storage

/-- A path with a normal form is looked up below the root. -/
theorem below_of_normal (tree : Tree) (root shown : String) {path normal : String}
    (h : normalizePath path = .ok normal) :
    (below tree root shown).fileExists path = (tree (Tree.join root normal)).isFile ∧
      (below tree root shown).read path
        = match tree (Tree.join root normal) with
          | .file content => .ok content
          | _ => .error (.unreadable (Tree.join shown normal)) := by
  simp only [below, h]
  exact ⟨trivial, rfl⟩

/-- A path without a normal form is absent, and an error to read. -/
theorem below_of_error (tree : Tree) (root shown : String) {path : String} {e : SceneError}
    (h : normalizePath path = .error e) :
    (below tree root shown).fileExists path = false ∧
      (below tree root shown).read path = .error e := by
  simp only [below, h]
  exact ⟨trivial, rfl⟩

/-- **A rooted storage** asks its file system for nothing but normal forms joined to the root: file
systems that agree on those make the same storage. -/
theorem below_congr {tree tree' : Tree} {root : String}
    (h : ∀ path, IsNormal path → tree (Tree.join root path) = tree' (Tree.join root path))
    (shown : String) : below tree root shown = below tree' root shown := by
  have hpath (path : String) :
      (below tree root shown).fileExists path = (below tree' root shown).fileExists path ∧
        (below tree root shown).read path = (below tree' root shown).read path := by
    cases hnormal : normalizePath path with
    | ok normal =>
      obtain ⟨hexists, hread⟩ := below_of_normal tree root shown hnormal
      obtain ⟨hexists', hread'⟩ := below_of_normal tree' root shown hnormal
      rw [hexists, hread, hexists', hread', h normal (isNormal_of_normalizePath_eq hnormal)]
      exact ⟨rfl, rfl⟩
    | error e =>
      obtain ⟨hexists, hread⟩ := below_of_error tree root shown hnormal
      obtain ⟨hexists', hread'⟩ := below_of_error tree' root shown hnormal
      rw [hexists, hread, hexists', hread']
      exact ⟨rfl, rfl⟩
  exact Storage.mk.injEq .. ▸ ⟨funext fun path => (hpath path).1, funext fun path => (hpath path).2⟩

end Storage

/-! ### Pictures -/

/-- An extension is put behind the last segment of a path and makes it the name of something. -/
theorem isProper_append_extension {extension : String} (h : extension ∈ imageExtensions)
    (name : List Char) : isProper (name ++ extension.toList) = true := by
  have hlength : ∀ extension ∈ imageExtensions, 2 ≤ extension.toList.length := by decide
  have hlong := hlength extension h
  refine isProper_iff.mpr ⟨fun heq => ?_, fun heq => ?_⟩
  · have := congrArg List.length heq
    rw [List.length_append, List.length_nil] at this
    omega
  · have := congrArg List.length heq
    rw [List.length_append, List.length_singleton] at this
    omega

/-- **What an identifier may stand for** is a file of the directory of pictures, or of a directory
below it. Nothing that is written in an identifier changes the first segment, or the end of the
last. -/
theorem exists_segments_of_mem_candidates {identifier path normal : String}
    (h : path ∈ candidates identifier) (hnormal : normalizePath path = .ok normal) :
    ∃ above name, ∃ extension ∈ imageExtensions, splitWhere (· == '/') normal.toList
      = imageDirectory.toList :: (above ++ [name ++ extension.toList]) := by
  obtain ⟨extension, hextension, rfl⟩ := List.mem_map.mp h
  obtain ⟨-, hclimb, hne, heq⟩ := normalizePath_eq_ok_iff.mp hnormal
  have hplain : ∀ extension ∈ imageExtensions, extension.toList.map forwardSlash = extension.toList ∧
      '/' ∉ extension.toList := by decide
  obtain ⟨hslashes, hslash⟩ := hplain extension hextension
  have hwhole : ∀ c ∈ extension.toList, (c == '/') = false := fun c hc =>
    beq_eq_false_iff_ne.mpr (ne_of_mem_of_not_mem hc hslash)
  obtain ⟨pieces, name, -, hpieces⟩ :=
    exists_splitWhere_append (p := (· == '/')) (identifier.toList.map forwardSlash)
  have hchars : (imageDirectory ++ "/" ++ identifier ++ extension).toList
      = imageDirectory.toList ++ '/' :: (identifier.toList ++ extension.toList) := by
    simp only [String.toList_append, List.append_assoc]
    rfl
  have hraw : rawSegments (imageDirectory ++ "/" ++ identifier ++ extension).toList
      = imageDirectory.toList :: (pieces ++ [name ++ extension.toList]) := by
    rw [hchars, rawSegments, List.map_append, List.map_cons, List.map_append, hslashes,
      ← hpieces extension.toList hwhole]
    exact splitWhere_append_cons (p := (· == '/')) rfl _ _
  refine ⟨pieces.filter isProper, name, extension, hextension, ?_⟩
  rw [splitWhere_of_isDownward hne (isDownward_of_mem_namedSegments hclimb) heq, namedSegments,
    hraw, List.filter_cons_of_pos rfl, List.filter_append,
    List.filter_cons_of_pos (isProper_append_extension hextension name), List.filter_nil]

/-- **Asset paths cannot escape their root.** A path has a normal form just if, its backslashes read
as slashes, it does not start with a slash, no segment climbs, and some segment names something; the
normal form is the segments that name something, in order, with a slash between two of them. It
holds no backslash, it neither starts nor ends with a slash, all its segments lead downward, and it
is its own normal form. Paths that are joined by a slash are normalised part by part.

A storage below a root looks up the normal form of a path, joined to the root, which leads below the
place of the root; a path without one is absent, and an error to read. What the file system holds
anywhere else makes no difference. And whatever is written in an identifier, the files that a cache
asks for lie in the directory of pictures. -/
theorem normalized_paths_confined :
    (∀ path normal, normalizePath path = .ok normal ↔
      (path.toList.map forwardSlash).head? ≠ some '/' ∧ climb ∉ rawSegments path.toList ∧
        namedSegments path ≠ [] ∧ normal.toList = ['/'].intercalate (namedSegments path)) ∧
    (∀ path normal, normalizePath path = .ok normal →
      IsNormal normal ∧ normal.toList.head? ≠ some '/' ∧ normal.toList.getLast? ≠ some '/' ∧
        normalizePath normal = .ok normal) ∧
    (∀ path path' normal normal', normalizePath path = .ok normal →
      normalizePath path' = .ok normal' →
      normalizePath (path ++ "/" ++ path') = .ok (normal ++ "/" ++ normal')) ∧
    (∀ (tree : Tree) (root shown : String),
      (∀ path normal, normalizePath path = .ok normal →
        (Storage.below tree root shown).fileExists path = (tree (Tree.join root normal)).isFile ∧
        (Storage.below tree root shown).read path
          = (match tree (Tree.join root normal) with
            | .file content => .ok content
            | _ => .error (.unreadable (Tree.join shown normal))) ∧
        Place.ofPath (Tree.join root normal)
          = (Place.ofPath root).descend (splitWhere (· == '/') normal.toList)) ∧
      (∀ path e, normalizePath path = .error e →
        (Storage.below tree root shown).fileExists path = false ∧
        (Storage.below tree root shown).read path = .error e) ∧
      ∀ tree' : Tree,
        (∀ path, IsNormal path → tree (Tree.join root path) = tree' (Tree.join root path)) →
        Storage.below tree root shown = Storage.below tree' root shown) ∧
    ∀ (identifier : String), ∀ path ∈ candidates identifier, ∀ normal,
      normalizePath path = .ok normal →
      ∃ above name, ∃ extension ∈ imageExtensions, splitWhere (· == '/') normal.toList
        = imageDirectory.toList :: (above ++ [name ++ extension.toList]) := by
  refine ⟨fun path normal => normalizePath_eq_ok_iff, fun path normal h => ?normal,
    fun path path' normal normal' h h' => normalizePath_append h h', fun tree root shown =>
      ⟨fun path normal h => ?below, fun path e h => Storage.below_of_error tree root shown h,
        fun tree' hagree => Storage.below_congr hagree shown⟩,
    fun identifier path hpath normal hnormal => exists_segments_of_mem_candidates hpath hnormal⟩
  case normal =>
    have hnormal := isNormal_of_normalizePath_eq h
    exact ⟨hnormal, hnormal.head?_ne, hnormal.getLast?_ne, hnormal.normalizePath_eq⟩
  case below =>
    obtain ⟨hexists, hread⟩ := Storage.below_of_normal tree root shown h
    exact ⟨hexists, hread, Place.ofPath_join root (isNormal_of_normalizePath_eq h)⟩

/-- An identifier with slashes of both kinds, and one that would climb out of the directory, over a
file system in which every path leads to a file. -/
theorem normalized_paths_confined_pictures :
    normalizePath "gfx/bg\\./night.png" = .ok "gfx/bg/night.png" ∧
      Place.ofPath (Tree.join "/srv" "gfx/bg/night.png")
        = ⟨true, ["night.png".toList, "bg".toList, "gfx".toList, "srv".toList]⟩ ∧
      (Storage.below (fun _ => .file (.bytes #[])) "/srv" "/srv").fileExists "gfx/bg\\./night.png"
        = true ∧
      (Storage.below (fun _ => .file (.bytes #[])) "/srv" "/srv").fileExists
        "gfx/../../etc/passwd.png" = false := by
  obtain ⟨hiff, -, -, hbelow, -⟩ := normalized_paths_confined
  have hnormal : normalizePath "gfx/bg\\./night.png" = .ok "gfx/bg/night.png" :=
    (hiff _ _).mpr (by decide +kernel)
  have hclimbs : normalizePath "gfx/../../etc/passwd.png" = .error .pathClimbs := by decide +kernel
  obtain ⟨hfound, habsent, -⟩ := hbelow (fun _ => .file (.bytes #[])) "/srv" "/srv"
  obtain ⟨hexists, -, hplace⟩ := hfound _ _ hnormal
  exact ⟨hnormal, hplace.trans (by decide +kernel), hexists, (habsent _ _ hclimbs).1⟩

end SceneCanvas.Asset
