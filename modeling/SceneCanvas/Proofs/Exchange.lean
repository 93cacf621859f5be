import SceneCanvas.Proofs.Cache
import Mathlib.Data.Finset.Card
import Mathlib.Data.List.Nodup

/-!
# What a cache asks of its storages

A cache is asked for the file of an identifier or for the picture in a file. Each such
`Asset.Question` comes with a storage, and the storages of different questions need not agree with
each other: files may appear or go away in between. What counts for the answer is the storage that
was there when the question was asked for the first time (`Asset.firstStorage?`).

* `Asset.Cache.ask_of_known` and `Asset.Cache.ask_of_unknown` say what asking does: nothing if the
  answer is known, and else the accesses to the storage that the answer takes.
* `Asset.Cache.Told` relates a cache to the exchanges that it has had, and `Asset.Cache.Told.asked`
  keeps the relation through any further exchanges.
-/

namespace SceneCanvas

/-! ### Memo tables -/

namespace Memo

/-- A table of single answers is as large as the number of different questions. -/
theorem size_eq_card {κ β : Type} [DecidableEq κ] {m : Memo κ β} (hm : m.keys.Nodup)
    {asked : List κ} (h : ∀ key, m.find? key = none ↔ key ∉ asked) :
    m.size = asked.toFinset.card := by
  have hkeys : m.keys.toFinset = asked.toFinset := by
    ext key
    rw [List.mem_toFinset, List.mem_toFinset, ← not_iff_not, ← find?_eq_none_iff, h]
  rw [← hkeys, List.toFinset_card_of_nodup hm, keys, List.length_map, size]

end Memo

namespace Asset

/-! ### Questions and answers -/

/-- What a cache can be asked. -/
inductive Question where
  /-- Which file does an identifier stand for? -/
  | file (identifier : String)
  /-- Which picture is in a file? -/
  | picture (path : String)
deriving DecidableEq

namespace Question

/-- The identifier asked about, if one is. -/
def identifier? : Question → Option String
  | file identifier => some identifier
  | picture _ => none

/-- The path asked about, if one is. -/
def path? : Question → Option String
  | file _ => none
  | picture path => some path

variable {question : Question}

theorem identifier?_eq_some_iff {identifier : String} :
    question.identifier? = some identifier ↔ question = file identifier := by
  cases question <;> simp [identifier?]

theorem path?_eq_some_iff {path : String} :
    question.path? = some path ↔ question = picture path := by
  cases question <;> simp [path?]

end Question

/-- What a cache can answer. -/
inductive Answer where
  | file (found : Option String)
  | picture (found : Option Picture)

/-- An access that can be made for a question, and for no other one. -/
def Access.isFor : Question → Access → Bool
  | .file identifier, .probe path => (candidates identifier).contains path
  | .picture path, .read path' => path' == path
  | _, _ => false

/-- No extension is the end of another one, so a file belongs to one identifier. -/
theorem eq_of_mem_candidates {identifier identifier' path : String}
    (h : path ∈ candidates identifier) (h' : path ∈ candidates identifier') :
    identifier = identifier' := by
  obtain ⟨extension, hextension, hpath⟩ := List.mem_map.mp h
  obtain ⟨extension', hextension', hpath'⟩ := List.mem_map.mp h'
  -- the two spellings of the path, read from its end
  have heq : extension.toList.reverse ++ identifier.toList.reverse
      = extension'.toList.reverse ++ identifier'.toList.reverse := by
    have hspelled := congrArg String.toList (hpath.trans hpath'.symm)
    simp only [String.toList_append, List.append_assoc, List.append_cancel_left_eq] at hspelled
    rw [← List.reverse_append, ← List.reverse_append, hspelled]
  simp only [imageExtensions, List.mem_cons, List.not_mem_nil, or_false] at hextension hextension'
  obtain rfl | rfl | rfl | rfl := hextension <;> obtain rfl | rfl | rfl | rfl := hextension' <;>
    simp_all [String.toList_inj]

theorem nodup_candidates (identifier : String) : (candidates identifier).Nodup := by
  refine List.Nodup.map (fun extension extension' h => ?_) (by decide)
  exact String.append_right_inj _ |>.mp h

namespace Access

variable {question question' : Question} {access : Access}

theorem isFor_unique (h : access.isFor question = true) (h' : access.isFor question' = true) :
    question = question' := by
  cases access with
  | probe path =>
    obtain identifier | _ := question
    · obtain identifier' | _ := question'
      · exact congrArg Question.file
          (eq_of_mem_candidates (List.contains_iff_mem.mp h) (List.contains_iff_mem.mp h'))
      · cases h'
    · cases h
  | read path =>
    obtain _ | path := question
    · cases h
    · obtain _ | path' := question'
      · cases h'
      · rw [← eq_of_beq h, ← eq_of_beq h']

end Access

namespace Storage

variable (storage : Storage)

/-- The files that are asked for to find the first one that exists: those before it, and it. -/
def tried (paths : List String) : List String :=
  paths.takeWhile (fun path => !storage.fileExists path)
    ++ (paths.find? storage.fileExists).toList

theorem tried_sublist (paths : List String) : List.Sublist (storage.tried paths) paths := by
  induction paths with
  | nil => exact .slnil
  | cons path paths ih =>
    rw [tried, List.takeWhile_cons, List.find?_cons]
    cases storage.fileExists path with
    | true => exact List.singleton_sublist.mpr List.mem_cons_self
    | false => exact ih.cons_cons path

/-- The answer of a storage. -/
def answer : Question → Answer
  | .file identifier => .file (storage.locate? identifier)
  | .picture path => .picture (storage.picture? path)

/-- The accesses that the answer of a storage takes, in order. -/
def accessesFor : Question → List Access
  | .file identifier => (storage.tried (candidates identifier)).map .probe
  | .picture path => [.read path]

theorem isFor_of_mem_accessesFor {question : Question} {access : Access}
    (h : access ∈ storage.accessesFor question) : access.isFor question = true := by
  cases question with
  | file identifier =>
    obtain ⟨path, hpath, rfl⟩ := List.mem_map.mp h
    exact List.contains_iff_mem.mpr ((storage.tried_sublist _).subset hpath)
  | picture path =>
    obtain rfl := List.mem_singleton.mp h
    exact beq_self_eq_true path

/-- The accesses that an answer takes are all for its question. -/
theorem filter_accessesFor (question question' : Question) :
    (storage.accessesFor question).filter (Access.isFor question')
      = if question' = question then storage.accessesFor question else [] := by
  split
  next heq =>
    subst heq
    exact List.filter_eq_self.mpr fun access => storage.isFor_of_mem_accessesFor
  next hne =>
    refine List.filter_eq_nil_iff.mpr fun access haccess hfor => hne ?_
    exact Access.isFor_unique hfor (storage.isFor_of_mem_accessesFor haccess)

theorem nodup_accessesFor (question : Question) : (storage.accessesFor question).Nodup := by
  cases question with
  | file identifier =>
    have htried := (nodup_candidates identifier).sublist (storage.tried_sublist _)
    exact htried.map fun path path' h => Access.probe.inj h
  | picture path => exact List.nodup_singleton _

end Storage

namespace Cache

/-! ### Asking a cache -/

variable {storage : Storage} {c : Cache} {question : Question}

/-- The answer to a question that has been asked before. -/
def known? (c : Cache) : Question → Option Answer
  | .file identifier => (c.paths.find? identifier).map .file
  | .picture path => (c.pictures.find? path).map .picture

/-- Put a question to a cache. -/
def ask (storage : Storage) (c : Cache) : Question → Answer × Cache
  | .file identifier => (c.resolve storage identifier).map .file id
  | .picture path => (c.load storage path).map .picture id

/-- Take over the answer of a storage, and note the accesses that it took. -/
def learn (storage : Storage) (c : Cache) (question : Question) : Cache :=
  let accesses := (storage.accessesFor question).reverse ++ c.accesses
  match question with
  | .file identifier =>
    { c with paths := c.paths.insert identifier (storage.locate? identifier), accesses }
  | .picture path =>
    { c with pictures := c.pictures.insert path (storage.picture? path), accesses }

/-- Looking for the first file that exists asks for the files before it, and for it. -/
theorem accesses_firstExisting (storage : Storage) (c : Cache) (paths : List String) :
    (c.firstExisting storage paths).2.accesses
      = ((storage.tried paths).map Access.probe).reverse ++ c.accesses := by
  induction paths generalizing c with
  | nil => rfl
  | cons path paths ih =>
    rw [firstExisting, probe, Storage.tried, List.takeWhile_cons, List.find?_cons]
    cases storage.fileExists path with
    | true => rfl
    | false =>
      refine (ih _).trans ?_
      simp [Storage.tried]

/-- **A known answer** is given without asking the storage. -/
theorem ask_of_known {answer : Answer} (h : c.known? question = some answer) :
    c.ask storage question = (answer, c) := by
  cases question with
  | file identifier =>
    obtain ⟨found, hfound, rfl⟩ := Option.map_eq_some_iff.mp h
    rw [ask, resolve, hfound]
    rfl
  | picture path =>
    obtain ⟨picture, hpicture, rfl⟩ := Option.map_eq_some_iff.mp h
    rw [ask, load, hpicture]
    rfl

/-- **Any other answer** is asked of the storage and kept. -/
theorem ask_of_unknown (h : c.known? question = none) :
    c.ask storage question = (storage.answer question, c.learn storage question) := by
  cases question with
  | file identifier =>
    have hfind : c.paths.find? identifier = none := Option.map_eq_none_iff.mp h
    obtain ⟨hfirst, hpaths, hpictures⟩ := firstExisting_spec storage c (candidates identifier)
    have haccesses := accesses_firstExisting storage c (candidates identifier)
    rw [ask, resolve, hfind]
    generalize c.firstExisting storage (candidates identifier) = searched at *
    obtain ⟨found, paths, pictures, accesses⟩ := searched
    cases hfirst; cases hpaths; cases hpictures; cases haccesses
    rfl
  | picture path =>
    have hfind : c.pictures.find? path = none := Option.map_eq_none_iff.mp h
    rw [ask, load, hfind]
    rfl

/-- What is known afterwards is what was known before, and this answer. -/
theorem known?_learn (storage : Storage) (c : Cache) (question question' : Question) :
    (c.learn storage question).known? question'
      = (c.known? question').or
          (if question' = question then some (storage.answer question) else none) := by
  cases question with
  | file identifier =>
    cases question' with
    | file identifier' =>
      simp only [learn, known?, Memo.find?_insert, Question.file.injEq, beq_iff_eq]
      cases c.paths.find? identifier' <;> split <;> rfl
    | picture path => simp [learn, known?]
  | picture path =>
    cases question' with
    | file identifier => simp [learn, known?]
    | picture path' =>
      simp only [learn, known?, Memo.find?_insert, Question.picture.injEq, beq_iff_eq]
      cases c.pictures.find? path' <;> split <;> rfl

theorem accesses_learn (storage : Storage) (c : Cache) (question : Question) :
    (c.learn storage question).accesses
      = (storage.accessesFor question).reverse ++ c.accesses := by
  cases question <;> rfl

theorem mem_accesses_learn {access : Access} :
    access ∈ (c.learn storage question).accesses
      ↔ access ∈ storage.accessesFor question ∨ access ∈ c.accesses := by
  rw [accesses_learn, List.mem_append, List.mem_reverse]

/-- Accesses for a question that none was made for are new. -/
theorem nodup_accesses_learn (hc : c.accesses.Nodup)
    (hnone : ∀ access ∈ c.accesses, access.isFor question = false) (storage : Storage) :
    (c.learn storage question).accesses.Nodup := by
  rw [accesses_learn]
  refine List.nodup_append.mpr
    ⟨List.nodup_reverse.mpr (storage.nodup_accessesFor question), hc,
      fun access haccess access' haccess' heq => ?_⟩
  subst heq
  have hfor := storage.isFor_of_mem_accessesFor (List.mem_reverse.mp haccess)
  exact Bool.false_ne_true ((hnone access haccess').symm.trans hfor)

theorem nodup_paths_learn (hc : c.paths.keys.Nodup) (hknown : c.known? question = none)
    (storage : Storage) : (c.learn storage question).paths.keys.Nodup := by
  cases question with
  | file identifier => exact Memo.nodup_keys_insert hc (Option.map_eq_none_iff.mp hknown) _
  | picture path => exact hc

theorem nodup_pictures_learn (hc : c.pictures.keys.Nodup) (hknown : c.known? question = none)
    (storage : Storage) : (c.learn storage question).pictures.keys.Nodup := by
  cases question with
  | file identifier => exact hc
  | picture path => exact Memo.nodup_keys_insert hc (Option.map_eq_none_iff.mp hknown) _

/-- No entry of a cache is changed or taken out: those of `c'` begin with those of `c`. -/
structure Extends (c c' : Cache) : Prop where
  paths : c.paths.entries <+: c'.paths.entries
  pictures : c.pictures.entries <+: c'.pictures.entries

theorem Extends.refl (c : Cache) : c.Extends c := ⟨List.prefix_rfl, List.prefix_rfl⟩

theorem Extends.trans {c c' c'' : Cache} (h : c.Extends c') (h' : c'.Extends c'') :
    c.Extends c'' := ⟨h.paths.trans h'.paths, h.pictures.trans h'.pictures⟩

theorem extends_ask (storage : Storage) (c : Cache) (question : Question) :
    c.Extends (c.ask storage question).2 := by
  cases hknown : c.known? question with
  | some answer => rw [ask_of_known hknown]; exact .refl c
  | none =>
    rw [ask_of_unknown hknown]
    cases question with
    | file identifier => exact ⟨List.prefix_append _ _, List.prefix_rfl⟩
    | picture path => exact ⟨List.prefix_rfl, List.prefix_append _ _⟩

end Cache

/-! ### Exchanges -/

/-- A question, the storage that was there to answer it, and the answer that was given. -/
structure Exchange where
  storage : Storage
  question : Question
  answer : Answer

/-- The storage that was there when a question was asked for the first time. -/
def firstStorage? (exchanges : List Exchange) (question : Question) : Option Storage :=
  (exchanges.find? fun e => e.question = question).map Exchange.storage

theorem firstStorage?_append (past : List Exchange) (e : Exchange) (question : Question) :
    firstStorage? (past ++ [e]) question
      = (firstStorage? past question).or
          (if question = e.question then some e.storage else none) := by
  rw [firstStorage?, firstStorage?, List.find?_append, List.find?_singleton]
  cases past.find? fun e => e.question = question with
  | some first => rfl
  | none => simp only [eq_comm (a := question), decide_eq_true_eq]; split <;> rfl

/-- One exchange after the other leads from a cache to another one. -/
inductive Asked : Cache → List Exchange → Cache → Prop where
  | nil (c : Cache) : Asked c [] c
  | cons {c c' : Cache} {exchanges : List Exchange} (storage : Storage) (question : Question)
      (h : Asked (c.ask storage question).2 exchanges c') :
      Asked c (⟨storage, question, (c.ask storage question).1⟩ :: exchanges) c'

theorem Asked.append {c c' c'' : Cache} {exchanges exchanges' : List Exchange}
    (h : Asked c exchanges c') (h' : Asked c' exchanges' c'') :
    Asked c (exchanges ++ exchanges') c'' := by
  induction h with
  | nil => exact h'
  | cons storage question _ ih => exact .cons storage question (ih h')

theorem Asked.extends {c c' : Cache} {exchanges : List Exchange} (h : Asked c exchanges c') :
    c.Extends c' := by
  induction h with
  | nil c => exact .refl c
  | cons storage question _ ih => exact (Cache.extends_ask storage _ question).trans ih

namespace Cache

/-- A cache that has had some exchanges. -/
structure Told (exchanges : List Exchange) (c : Cache) : Prop where
  /-- It knows what the first storage said, of each question. -/
  known?_eq : ∀ question, c.known? question
    = (firstStorage? exchanges question).map (·.answer question)
  /-- It has answered what it knows. -/
  answer_eq : ∀ e ∈ exchanges, c.known? e.question = some e.answer
  /-- It has made the accesses that the first answer to each question took. -/
  accesses_eq : ∀ question, c.accesses.reverse.filter (Access.isFor question)
    = ((firstStorage? exchanges question).map (·.accessesFor question)).getD []
  /-- It has made no other access. -/
  asked_of_mem : ∀ access ∈ c.accesses, ∃ e ∈ exchanges, access.isFor e.question = true
  nodup_accesses : c.accesses.Nodup
  nodup_paths : c.paths.keys.Nodup
  nodup_pictures : c.pictures.keys.Nodup

namespace Told

variable {past : List Exchange} {c : Cache}

theorem empty : Told [] {} where
  known?_eq question := by cases question <;> rfl
  answer_eq := nofun
  accesses_eq _ := rfl
  asked_of_mem := nofun
  nodup_accesses := .nil
  nodup_paths := .nil
  nodup_pictures := .nil

/-- A question that is known leaves everything as it is. -/
theorem known (h : Told past c) {storage : Storage} {question : Question} {answer : Answer}
    (hknown : c.known? question = some answer) :
    Told (past ++ [⟨storage, question, answer⟩]) c := by
  have hfirst (question' : Question) :
      firstStorage? (past ++ [⟨storage, question, answer⟩]) question'
        = firstStorage? past question' := by
    rw [firstStorage?_append]
    split
    next heq =>
      subst heq
      rw [h.known?_eq] at hknown
      obtain ⟨first, hfirst, -⟩ := Option.map_eq_some_iff.mp hknown
      rw [hfirst, Option.or_some]
      rfl
    next => exact Option.or_none
  refine { h with
    known?_eq := fun question' => ?_, answer_eq := fun e he => ?_,
    accesses_eq := fun question' => ?_, asked_of_mem := fun access haccess => ?_ }
  · rw [hfirst, h.known?_eq]
  · obtain he | he := List.mem_append.mp he
    · exact h.answer_eq e he
    · obtain rfl := List.mem_singleton.mp he
      exact hknown
  · rw [hfirst, h.accesses_eq]
  · obtain ⟨e, he, hfor⟩ := h.asked_of_mem access haccess
    exact ⟨e, List.mem_append_left _ he, hfor⟩

/-- A question that is not known was not asked before, and no access was made for it. -/
theorem not_asked (h : Told past c) {question : Question} (hknown : c.known? question = none) :
    firstStorage? past question = none ∧
      ∀ access ∈ c.accesses, access.isFor question = false := by
  refine ⟨Option.map_eq_none_iff.mp ((h.known?_eq question).symm.trans hknown),
    fun access haccess => ?_⟩
  obtain ⟨e, he, hfor⟩ := h.asked_of_mem access haccess
  by_contra hasked
  have hquestion := Access.isFor_unique (Bool.eq_true_of_not_eq_false hasked) hfor
  rw [hquestion, h.answer_eq e he] at hknown
  cases hknown

/-- A question that is not known is learnt from the storage. -/
theorem unknown (h : Told past c) {storage : Storage} {question : Question}
    (hknown : c.known? question = none) :
    Told (past ++ [⟨storage, question, storage.answer question⟩]) (c.learn storage question) := by
  obtain ⟨hfirst, hnone⟩ := h.not_asked hknown
  have hnew : (c.learn storage question).known? question = some (storage.answer question) := by
    rw [known?_learn, hknown, if_pos rfl, Option.none_or]
  refine
    { known?_eq := fun question' => ?known
      answer_eq := fun e he => ?answer
      accesses_eq := fun question' => ?accesses
      asked_of_mem := fun access haccess => ?asked
      nodup_accesses := nodup_accesses_learn h.nodup_accesses hnone storage
      nodup_paths := nodup_paths_learn h.nodup_paths hknown storage
      nodup_pictures := nodup_pictures_learn h.nodup_pictures hknown storage }
  case known =>
    rw [known?_learn, firstStorage?_append, h.known?_eq]
    by_cases heq : question' = question
    · subst heq
      rw [hfirst, if_pos rfl, if_pos rfl]
      rfl
    · rw [if_neg heq, if_neg heq, Option.or_none, Option.or_none]
  case answer =>
    obtain he | he := List.mem_append.mp he
    · rw [known?_learn, h.answer_eq e he]
      rfl
    · obtain rfl := List.mem_singleton.mp he
      exact hnew
  case accesses =>
    rw [accesses_learn, List.reverse_append, List.reverse_reverse, List.filter_append,
      h.accesses_eq, storage.filter_accessesFor, firstStorage?_append]
    by_cases heq : question' = question
    · subst heq
      rw [hfirst, if_pos rfl, if_pos rfl]
      rfl
    · rw [if_neg heq, if_neg heq, List.append_nil, Option.or_none]
  case asked =>
    obtain haccess | haccess := mem_accesses_learn.mp haccess
    · exact ⟨_, List.mem_append_right _ List.mem_cons_self,
        storage.isFor_of_mem_accessesFor haccess⟩
    · obtain ⟨e, he, hfor⟩ := h.asked_of_mem access haccess
      exact ⟨e, List.mem_append_left _ he, hfor⟩

/-- **One more exchange.** -/
theorem ask (h : Told past c) (storage : Storage) (question : Question) :
    Told (past ++ [⟨storage, question, (c.ask storage question).1⟩])
      (c.ask storage question).2 := by
  cases hknown : c.known? question with
  | some answer => rw [ask_of_known hknown]; exact h.known hknown
  | none => rw [ask_of_unknown hknown]; exact h.unknown hknown

/-- **Any number of further exchanges.** -/
theorem asked (h : Told past c) {c' : Cache} {exchanges : List Exchange}
    (hasked : Asked c exchanges c') : Told (past ++ exchanges) c' := by
  induction hasked generalizing past with
  | nil => rwa [List.append_nil]
  | cons storage question _ ih =>
    have hnext := ih (h.ask storage question)
    rwa [List.append_assoc] at hnext

/-- What has been asked is known, and nothing else. -/
theorem known?_eq_none_iff (h : Told past c) (question : Question) :
    c.known? question = none ↔ ∀ e ∈ past, e.question ≠ question := by
  rw [h.known?_eq, Option.map_eq_none_iff, firstStorage?, Option.map_eq_none_iff,
    List.find?_eq_none]
  simp only [decide_eq_true_eq, ne_eq]

/-- The identifiers looked up are counted once each. -/
theorem resolvedCount_eq (h : Told past c) :
    c.resolvedCount = (past.filterMap (·.question.identifier?)).toFinset.card := by
  refine Memo.size_eq_card h.nodup_paths fun identifier => ?_
  have hknown := h.known?_eq_none_iff (.file identifier)
  rw [known?, Option.map_eq_none_iff] at hknown
  rw [hknown, List.mem_filterMap]
  simp only [Question.identifier?_eq_some_iff, not_exists, not_and, ne_eq]

/-- The files loaded are counted once each. -/
theorem pictureCount_eq (h : Told past c) :
    c.pictureCount = (past.filterMap (·.question.path?)).toFinset.card := by
  refine Memo.size_eq_card h.nodup_pictures fun path => ?_
  have hknown := h.known?_eq_none_iff (.picture path)
  rw [known?, Option.map_eq_none_iff] at hknown
  rw [hknown, List.mem_filterMap]
  simp only [Question.path?_eq_some_iff, not_exists, not_and, ne_eq]

/-- **A file is read once** if a picture in it has been asked for, and else never. -/
theorem count_read (h : Told past c) (path : String) :
    c.accesses.count (.read path)
      = if (firstStorage? past (.picture path)).isSome then 1 else 0 := by
  have hfor : Access.isFor (.picture path) = (· == Access.read path) := by
    funext access
    cases access with
    | probe path' => rfl
    | read path' => rfl
  have hfilter := congrArg List.length (h.accesses_eq (.picture path))
  rw [hfor, ← List.countP_eq_length_filter, ← List.count_eq_countP, List.count_reverse] at hfilter
  rw [hfilter]
  cases firstStorage? past (.picture path) <;> rfl

/-- **The candidates of an identifier are tried once**, in order and up to the first one that
exists, if the identifier has been looked up, and else never. -/
theorem probedPaths_eq (h : Told past c) (identifier : String) :
    c.probedPaths.filter ((candidates identifier).contains ·)
      = ((firstStorage? past (.file identifier)).map
          (·.tried (candidates identifier))).getD [] := by
  have hprobes (accesses : List Access) :
      (accesses.filterMap Access.probed?).filter ((candidates identifier).contains ·)
        = (accesses.filter (Access.isFor (.file identifier))).filterMap Access.probed? := by
    rw [List.filter_filterMap, List.filterMap_filter]
    congr 1
    funext access
    cases access <;> simp [Access.probed?, Access.isFor, Option.filter]
  rw [probedPaths, hprobes, h.accesses_eq]
  cases firstStorage? past (.file identifier) with
  | none => rfl
  | some storage => exact (List.filterMap_map ..).trans List.filterMap_some

end Told

/-! ### Fetching -/

/-- The exchanges that fetching a picture takes. -/
def fetchExchanges (storage : Storage) (c : Cache) (identifier : String) : List Exchange :=
  let found := (c.resolve storage identifier).1
  ⟨storage, .file identifier, .file found⟩ ::
    match found with
    | none => []
    | some path => [⟨storage, .picture path, .picture (c.fetch storage identifier).1⟩]

/-- The exchanges that fetching several pictures takes. -/
def fetchAllExchanges (storage : Storage) (c : Cache) : List String → List Exchange
  | [] => []
  | identifier :: identifiers =>
    c.fetchExchanges storage identifier
      ++ fetchAllExchanges storage (c.fetch storage identifier).2 identifiers

theorem asked_fetch (storage : Storage) (c : Cache) (identifier : String) :
    Asked c (c.fetchExchanges storage identifier) (c.fetch storage identifier).2 := by
  refine Asked.cons storage (.file identifier) ?_
  rw [ask, fetch]
  rcases c.resolve storage identifier with ⟨_ | path, c'⟩
  · exact .nil c'
  · exact .cons storage (.picture path) (.nil _)

theorem asked_fetchAll (storage : Storage) (c : Cache) (identifiers : List String) :
    Asked c (c.fetchAllExchanges storage identifiers) (c.fetchAll storage identifiers) := by
  induction identifiers generalizing c with
  | nil => exact .nil c
  | cons identifier identifiers ih => exact (c.asked_fetch storage identifier).append (ih _)

end Cache

end Asset

end SceneCanvas
