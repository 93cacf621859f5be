import SceneCanvas.Asset.Cache

/-!
# The cache agrees with the storage

A storage answers every question in one way, so what the cache remembers can be compared with what
the storage says: `Asset.Cache.Coherent` is that comparison, misses and failures included. Every
question that is asked of a coherent cache gets the answer of the storage and leaves a coherent
cache behind (`Asset.Cache.resolve_spec`, `Asset.Cache.load_spec`, `Asset.Cache.fetch_spec`).
-/

namespace SceneCanvas

namespace Asset

/-! ### What the storage says -/

namespace Storage

variable (storage : Storage)

/-- The file that an identifier stands for. -/
def locate? (identifier : String) : Option String :=
  (candidates identifier).find? storage.fileExists

/-- The picture in a file, if the file can be read and decoded. -/
def picture? (path : String) : Option Picture := (storage.read path >>= File.decode).toOption

/-- The picture that an identifier stands for. -/
def fetch? (identifier : String) : Option Picture :=
  (storage.locate? identifier).bind storage.picture?

end Storage

namespace Cache

/-- Whatever the cache remembers is what the storage says. -/
structure Coherent (storage : Storage) (c : Cache) : Prop where
  paths_eq : ∀ identifier found,
    c.paths.find? identifier = some found → found = storage.locate? identifier
  pictures_eq : ∀ path picture,
    c.pictures.find? path = some picture → picture = storage.picture? path

variable {storage : Storage} {c : Cache}

/-- An empty cache remembers nothing. -/
theorem coherent_empty (storage : Storage) : Coherent storage {} where
  paths_eq _ _ h := nomatch h
  pictures_eq _ _ h := nomatch h

/-- Looking for the first file that exists finds it, and touches nothing but the log. -/
theorem firstExisting_spec (storage : Storage) (c : Cache) (paths : List String) :
    (c.firstExisting storage paths).1 = paths.find? storage.fileExists ∧
      (c.firstExisting storage paths).2.paths = c.paths ∧
      (c.firstExisting storage paths).2.pictures = c.pictures := by
  induction paths generalizing c with
  | nil => exact ⟨rfl, rfl, rfl⟩
  | cons path paths ih =>
    rw [firstExisting, probe, List.find?_cons]
    cases storage.fileExists path with
    | true => exact ⟨rfl, rfl, rfl⟩
    | false => exact ih _

/-- **Resolving** gives the file that the storage has, remembered or not. -/
theorem resolve_spec (h : Coherent storage c) (identifier : String) :
    (c.resolve storage identifier).1 = storage.locate? identifier ∧
      Coherent storage (c.resolve storage identifier).2 := by
  rw [resolve]
  split
  next found hfound => exact ⟨h.paths_eq _ _ hfound, h⟩
  next =>
    obtain ⟨hfirst, hpaths, hpictures⟩ := firstExisting_spec storage c (candidates identifier)
    refine ⟨hfirst, fun identifier' found hfind => ?_, fun path picture hfind => ?_⟩
    · -- an answer from before, or the one just added
      dsimp only at hfind
      rw [hpaths, Memo.find?_insert, Option.or_eq_some_iff] at hfind
      obtain hold | ⟨-, hnew⟩ := hfind
      · exact h.paths_eq _ _ hold
      · obtain ⟨hkey, hvalue⟩ := Option.ite_none_right_eq_some.mp hnew
        rw [eq_of_beq hkey, Storage.locate?, ← hfirst]
        exact (Option.some.inj hvalue).symm
    · exact h.pictures_eq path picture (hpictures ▸ hfind)

/-- **Loading** gives the picture that the storage has, remembered or not. -/
theorem load_spec (h : Coherent storage c) (path : String) :
    (c.load storage path).1 = storage.picture? path ∧
      Coherent storage (c.load storage path).2 := by
  rw [load]
  split
  next picture hpicture => exact ⟨h.pictures_eq _ _ hpicture, h⟩
  next =>
    refine ⟨rfl, fun identifier found hfind => h.paths_eq identifier found hfind,
      fun path' picture hfind => ?_⟩
    dsimp only [read] at hfind
    rw [Memo.find?_insert, Option.or_eq_some_iff] at hfind
    obtain hold | ⟨-, hnew⟩ := hfind
    · exact h.pictures_eq _ _ hold
    · obtain ⟨hkey, hvalue⟩ := Option.ite_none_right_eq_some.mp hnew
      rw [eq_of_beq hkey]
      exact (Option.some.inj hvalue).symm

/-- **Fetching** gives the picture that the storage has, remembered or not. -/
theorem fetch_spec (h : Coherent storage c) (identifier : String) :
    (c.fetch storage identifier).1 = storage.fetch? identifier ∧
      Coherent storage (c.fetch storage identifier).2 := by
  obtain ⟨hfound, hresolved⟩ := resolve_spec h identifier
  rw [fetch, Storage.fetch?, ← hfound]
  rcases hresolve : c.resolve storage identifier with ⟨_ | path, c'⟩ <;> rw [hresolve] at hresolved
  · exact ⟨rfl, hresolved⟩
  · exact load_spec hresolved path

theorem Coherent.fetchAll (h : Coherent storage c) (identifiers : List String) :
    Coherent storage (c.fetchAll storage identifiers) := by
  rw [Cache.fetchAll]
  exact List.foldlRecOn _ _ h fun c' hc' identifier _ => (fetch_spec hc' identifier).2

end Cache

end Asset

end SceneCanvas
