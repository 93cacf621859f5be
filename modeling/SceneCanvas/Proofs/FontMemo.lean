import Mathlib.Data.List.Induction
import SceneCanvas.Font.Book
import SceneCanvas.Proofs.Cache

/-!
# Font books answer afresh

A book remembers its answers, so the answer to a call may have been found by an earlier one. To tell
which one, every call of a history brings a database of its own: then an answer that is out of date,
or that belongs to another question, is a different answer.

* `Font.BookOf.Sourced`: whatever a book remembers was found by **a call for the same family and
  weight, since which no directory has been loaded** (`Font.ComesFrom`). Every call keeps this, and
  so does every history.
* Faces only change when a directory is loaded. So with one database throughout, what such a call
  has found is what a new search would find (`Font.ComesFrom.eq_query`).
-/

namespace SceneCanvas.Font

open Asset (File FontFace)

/-! ### Histories -/

/-- What is done with a book. -/
inductive Call where
  /-- Load the font files of a directory, if there is one. -/
  | load (directory : Option (List (String × File)))
  /-- Ask for the best face. -/
  | resolve (family : String) (bold : Bool)

/-- The call loads a directory that exists. -/
def Call.Loads : Call → Prop
  | load (some _) => True
  | _ => False

/-- A call, and the database that it is made with. -/
structure Event (ρ φ : Type) where
  db : Database ρ φ
  call : Call

variable {ρ φ : Type}

/-- The faces after an event. Only the files of a directory add any. -/
def Event.facesAfter (faces : List ρ) (event : Event ρ φ) : List ρ :=
  match event.call with
  | .load (some files) => files.foldl event.db.addNamed faces
  | _ => faces

/-- The faces after a history. -/
def facesAfterAll (faces : List ρ) (history : List (Event ρ φ)) : List ρ :=
  history.foldl Event.facesAfter faces

/-- The book after an event. -/
def BookOf.after (book : BookOf ρ φ) (event : Event ρ φ) : BookOf ρ φ :=
  match event.call with
  | .load directory => book.loadWith event.db directory
  | .resolve family bold => (book.resolveWith event.db family bold).2

/-- The book after a history. -/
def BookOf.afterAll (book : BookOf ρ φ) (history : List (Event ρ φ)) : BookOf ρ φ :=
  history.foldl BookOf.after book

/-! ### Faces -/

theorem facesAfterAll_append (faces : List ρ) (history later : List (Event ρ φ)) :
    facesAfterAll faces (history ++ later) = facesAfterAll (facesAfterAll faces history) later :=
  List.foldl_append

theorem facesAfterAll_concat (faces : List ρ) (history : List (Event ρ φ)) (event : Event ρ φ) :
    facesAfterAll faces (history ++ [event]) = event.facesAfter (facesAfterAll faces history) :=
  facesAfterAll_append faces history [event]

theorem Event.facesAfter_of_not_loads {event : Event ρ φ} (h : ¬ event.call.Loads)
    (faces : List ρ) : event.facesAfter faces = faces := by
  obtain ⟨db, call⟩ := event
  cases call with
  | resolve family bold => rfl
  | load directory =>
    cases directory with
    | none => rfl
    | some files => exact absurd trivial h

/-- Faces stay until a directory is loaded. -/
theorem facesAfterAll_of_not_loads {history : List (Event ρ φ)}
    (h : ∀ event ∈ history, ¬ event.call.Loads) (faces : List ρ) :
    facesAfterAll faces history = faces := by
  induction history generalizing faces with
  | nil => rfl
  | cons event rest ih =>
    obtain ⟨hevent, hrest⟩ := List.forall_mem_cons.mp h
    rw [facesAfterAll, List.foldl_cons, Event.facesAfter_of_not_loads hevent]
    exact ih hrest faces

/-- Asking for a face does not change the faces. -/
theorem BookOf.faces_resolveWith (db : Database ρ φ) (book : BookOf ρ φ) (family : String)
    (bold : Bool) : (book.resolveWith db family bold).2.faces = book.faces := by
  rw [resolveWith]
  split <;> rfl

theorem BookOf.faces_after (book : BookOf ρ φ) (event : Event ρ φ) :
    (book.after event).faces = event.facesAfter book.faces := by
  obtain ⟨db, call⟩ := event
  cases call with
  | resolve family bold => exact book.faces_resolveWith db family bold
  | load directory => cases directory <;> rfl

/-! ### Memory -/

theorem BookOf.after_resolve (book : BookOf ρ φ) (db : Database ρ φ) (family : String)
    (bold : Bool) : book.after ⟨db, .resolve family bold⟩ = (book.resolveWith db family bold).2 :=
  rfl

/-- The answer to a call is the remembered one, or else a new one. -/
theorem BookOf.fst_resolveWith (db : Database ρ φ) (book : BookOf ρ φ) (family : String)
    (bold : Bool) : (book.resolveWith db family bold).1
      = (book.resolved.find? (family, bold)).getD (db.query book.faces family bold) := by
  rw [resolveWith]
  split
  next face hfind => rw [hfind, Option.getD_some]
  next hfind => rw [hfind, Option.getD_none]

/-- What is remembered after a call: the answers from before, and the one just given. -/
theorem BookOf.find?_resolveWith (db : Database ρ φ) (book : BookOf ρ φ) (family : String)
    (bold : Bool) (key : String × Bool) :
    (book.resolveWith db family bold).2.resolved.find? key = (book.resolved.find? key).or
      (if key = (family, bold) then some (book.resolveWith db family bold).1 else none) := by
  rw [resolveWith]
  split
  next face hfind =>
    split
    next hkey => rw [hkey, hfind, Option.some_or]
    next => rw [Option.or_none]
  next => simp only [Memo.find?_insert, beq_iff_eq]

/-! ### Where answers come from -/

/-- The answer was found by a call of the history for the same family and weight, in the faces of
that time, and no directory has been loaded since. -/
def ComesFrom (faces : List ρ) (history : List (Event ρ φ)) (family : String) (bold : Bool)
    (answer : Option φ) : Prop :=
  ∃ earlier db later, history = earlier ++ ⟨db, .resolve family bold⟩ :: later ∧
    (∀ event ∈ later, ¬ event.call.Loads) ∧
    answer = db.query (facesAfterAll faces earlier) family bold

namespace ComesFrom

variable {faces : List ρ} {history : List (Event ρ φ)} {family : String} {bold : Bool}
  {answer : Option φ}

/-- An answer that has just been found. -/
theorem last (faces : List ρ) (history : List (Event ρ φ)) (db : Database ρ φ) (family : String)
    (bold : Bool) : ComesFrom faces (history ++ [⟨db, .resolve family bold⟩]) family bold
      (db.query (facesAfterAll faces history) family bold) :=
  ⟨history, db, [], rfl, fun _ h => absurd h List.not_mem_nil, rfl⟩

/-- An answer lasts until a directory is loaded. -/
theorem concat (h : ComesFrom faces history family bold answer) {event : Event ρ φ}
    (hevent : ¬ event.call.Loads) : ComesFrom faces (history ++ [event]) family bold answer := by
  obtain ⟨earlier, db, later, rfl, hlater, hanswer⟩ := h
  refine ⟨earlier, db, later ++ [event], by rw [List.append_assoc, List.cons_append], ?_, hanswer⟩
  intro e he
  obtain he | he := List.mem_append.mp he
  · exact hlater e he
  · rw [List.mem_singleton.mp he]
    exact hevent

/-- **With one database throughout**, an answer is what a search in the present faces would find. -/
theorem eq_query (h : ComesFrom faces history family bold answer) {db : Database ρ φ}
    (hdb : ∀ event ∈ history, event.db = db) :
    answer = db.query (facesAfterAll faces history) family bold := by
  obtain ⟨earlier, db', later, rfl, hlater, rfl⟩ := h
  have hsame : db' = db := hdb ⟨db', .resolve family bold⟩ (by simp)
  have hstill : ∀ event ∈ ⟨db', .resolve family bold⟩ :: later, ¬ event.call.Loads :=
    List.forall_mem_cons.mpr ⟨not_false, hlater⟩
  have hfaces : facesAfterAll faces (earlier ++ ⟨db', .resolve family bold⟩ :: later)
      = facesAfterAll faces earlier := by
    rw [facesAfterAll_append]
    exact facesAfterAll_of_not_loads hstill _
  rw [hfaces, hsame]

end ComesFrom

namespace BookOf

/-- The book has the faces that the history has loaded, and all that it remembers comes from calls
of the history. -/
structure Sourced (faces : List ρ) (history : List (Event ρ φ)) (book : BookOf ρ φ) : Prop where
  faces_eq : book.faces = facesAfterAll faces history
  comesFrom : ∀ family bold answer, book.resolved.find? (family, bold) = some answer →
    ComesFrom faces history family bold answer

/-- A new book remembers nothing. -/
theorem sourced_ofFaces (faces : List ρ) :
    Sourced faces ([] : List (Event ρ φ)) (.ofFaces faces) where
  faces_eq := rfl
  comesFrom _ _ _ h := nomatch h

namespace Sourced

variable {faces : List ρ} {history : List (Event ρ φ)} {book : BookOf ρ φ}

/-- **An answer** comes from this call or from an earlier one. -/
theorem resolveWith (h : Sourced faces history book) (db : Database ρ φ) (family : String)
    (bold : Bool) : ComesFrom faces (history ++ [⟨db, .resolve family bold⟩]) family bold
      (book.resolveWith db family bold).1 := by
  rw [fst_resolveWith]
  cases hfind : book.resolved.find? (family, bold) with
  | some answer => exact (h.comesFrom _ _ _ hfind).concat not_false
  | none =>
    rw [Option.getD_none, h.faces_eq]
    exact .last faces history db family bold

/-- **One event.** -/
theorem after (h : Sourced faces history book) (event : Event ρ φ) :
    Sourced faces (history ++ [event]) (book.after event) := by
  refine ⟨?faces, fun family bold answer hfind => ?answers⟩
  case faces => rw [faces_after, h.faces_eq, facesAfterAll_concat]
  case answers =>
    obtain ⟨db, call⟩ := event
    cases call with
    | load directory =>
      cases directory with
      | none => exact (h.comesFrom _ _ _ hfind).concat not_false
      | some files => cases hfind
    | resolve family' bold' =>
      rw [after_resolve, find?_resolveWith, Option.or_eq_some_iff] at hfind
      -- an answer from before, or the one just given
      obtain hold | ⟨-, hlast⟩ := hfind
      · exact (h.comesFrom _ _ _ hold).concat not_false
      · obtain ⟨hkey, hanswer⟩ := Option.ite_none_right_eq_some.mp hlast
        obtain ⟨rfl, rfl⟩ := Prod.mk.inj hkey
        rw [← Option.some.inj hanswer]
        exact h.resolveWith db family bold

end Sourced

/-- **A history.** -/
theorem sourced_afterAll (faces : List ρ) (history : List (Event ρ φ)) :
    Sourced faces history ((ofFaces faces).afterAll history) := by
  induction history using List.reverseRecOn with
  | nil => exact sourced_ofFaces faces
  | append_singleton history event ih =>
    rw [afterAll, List.foldl_append]
    exact ih.after event

end BookOf

/-- **Font books answer afresh.** With one database throughout, and whatever directories have been
loaded or found missing and whatever has been asked before, a call is given what a new search in the
faces loaded so far would find. With a database of its own for every call, the answer is that of a
call for the same family and weight, since which no directory has been loaded. When loading a
directory has changed the faces, the next answer is a new one, also where the last one was that there
is no face. Asking for one family and weight has no effect on the answer for another. -/
theorem books_answer_afresh (ρ φ : Type) :
    (∀ (db : Database ρ φ) (faces : List ρ) (calls : List Call) (family : String) (bold : Bool),
      let history := calls.map (Event.mk db)
      let book := (BookOf.ofFaces faces).afterAll history
      book.faces = facesAfterAll faces history ∧
        (book.resolveWith db family bold).1
          = db.query (facesAfterAll faces history) family bold) ∧
    (∀ (faces : List ρ) (history : List (Event ρ φ)) (db : Database ρ φ) (family : String)
      (bold : Bool), ComesFrom faces (history ++ [⟨db, .resolve family bold⟩]) family bold
        (((BookOf.ofFaces faces).afterAll history).resolveWith db family bold).1) ∧
    (∀ (db db' : Database ρ φ) (book : BookOf ρ φ) (directory : Option (List (String × File))),
      (book.loadWith db directory).faces ≠ book.faces → ∀ family bold,
        ((book.loadWith db directory).resolveWith db' family bold).1
          = db'.query (book.loadWith db directory).faces family bold) ∧
    (∀ (db db' : Database ρ φ) (book : BookOf ρ φ) (family family' : String) (bold bold' : Bool),
      (family', bold') ≠ (family, bold) →
        ((book.resolveWith db family bold).2.resolveWith db' family' bold').1
          = (book.resolveWith db' family' bold').1) := by
  refine ⟨fun db faces calls family bold => ?afresh, fun faces history db family bold =>
    (BookOf.sourced_afterAll faces history).resolveWith db family bold,
    fun db db' book directory hchanged family bold => ?loaded,
    fun db db' book family family' bold bold' hkey => ?apart⟩
  case afresh =>
    intro history book
    have hsourced : book.Sourced faces history := BookOf.sourced_afterAll faces history
    have hdb : ∀ event ∈ history ++ [⟨db, .resolve family bold⟩], event.db = db := by
      intro event hevent
      obtain hevent | hevent := List.mem_append.mp hevent
      · obtain ⟨call, -, rfl⟩ := List.mem_map.mp hevent
        rfl
      · rw [List.mem_singleton.mp hevent]
    have hanswer := (hsourced.resolveWith db family bold).eq_query hdb
    rw [facesAfterAll_concat] at hanswer
    exact ⟨hsourced.faces_eq, hanswer⟩
  case loaded =>
    cases directory with
    | none => exact absurd rfl hchanged
    | some files => rw [BookOf.fst_resolveWith]; rfl
  case apart =>
    rw [BookOf.fst_resolveWith, BookOf.fst_resolveWith, BookOf.find?_resolveWith, if_neg hkey,
      Option.or_none, BookOf.faces_resolveWith]

/-- A scene without fonts has found no face, and looked in vain for a directory of fonts. Then there
is one with a font, and a file that is none. -/
theorem books_answer_afresh_late :
    let files := [("Box.TTF", File.font ⟨"Box", 400, 0⟩), ("torn.otf", .bytes #[0, 1])]
    let calls := [.resolve "Box" false, .load none, .resolve "Box" true]
    let before : Book := (BookOf.ofFaces []).afterAll (calls.map (Event.mk byName))
    let after : Book := before.load (some files)
    ((before.resolve "Box" false).1 = none ∧ before.resolved.find? ("Box", false) = some none) ∧
    ((after.resolve "Box" false).1 = some ⟨"Box", 400, 0⟩ ∧
      ((after.resolve "Box" false).2.resolve "Box" true).1 = some ⟨"Box", 400, 0⟩) := by
  intro files calls before after
  obtain ⟨hafresh, -, hloaded, hapart⟩ := books_answer_afresh FontFace FontFace
  have hchanged : after.faces ≠ before.faces := by decide
  have hpair : ("Box", true) ≠ ("Box", false) := by decide
  exact ⟨⟨(hafresh byName [] calls "Box" false).2.trans (by decide), by decide⟩,
    (hloaded byName byName before (some files) hchanged "Box" false).trans (by decide),
    (hapart byName byName after "Box" "Box" false true hpair).trans (by decide)⟩

end SceneCanvas.Font
