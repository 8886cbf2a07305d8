import ContractLens.Document.Change

/-!
# Document store

The texts of the open documents, each under its address.  A batch of changes is
made as a whole or not at all.
-/

namespace ContractLens

/-- The open documents; every address occurs once. -/
structure OpenDocuments where
  entries : List (String × String)
  nodup : (entries.map Prod.fst).Nodup

namespace OpenDocuments

def empty : OpenDocuments :=
  ⟨[], List.nodup_nil⟩

def get? (store : OpenDocuments) (uri : String) : Option String :=
  store.entries.lookup uri

def size (store : OpenDocuments) : Nat :=
  store.entries.length

def isEmpty (store : OpenDocuments) : Bool :=
  store.entries.isEmpty

def close (store : OpenDocuments) (uri : String) : OpenDocuments where
  entries := store.entries.filter fun entry => entry.1 != uri
  nodup := store.nodup.sublist (List.filter_sublist.map _)

/-- Open a document, or give an open one another text. -/
def insert (store : OpenDocuments) (uri text : String) : OpenDocuments where
  entries := (uri, text) :: (store.close uri).entries
  nodup := by
    rw [List.map_cons, List.nodup_cons]
    refine ⟨?_, (store.close uri).nodup⟩
    simp [close]

/-- Change an open document; if one of the changes is refused, nothing changes. -/
def applyChanges (store : OpenDocuments) (uri : String) (changes : List Change) :
    Except ChangeError OpenDocuments :=
  match store.get? uri with
  | none => .error (.unknownDocument uri)
  | some text =>
      match Change.applyAll text changes with
      | .error error => .error error
      | .ok changed => .ok (store.insert uri changed)

/-- Give an open document another text. -/
def replace (store : OpenDocuments) (uri text : String) : Except ChangeError OpenDocuments :=
  store.applyChanges uri [.full text]

@[simp] theorem get?_close_self (store : OpenDocuments) (uri : String) :
    (store.close uri).get? uri = none := by
  simp only [get?, close]
  induction store.entries with
  | nil => rfl
  | cons entry others ih =>
      obtain ⟨key, text⟩ := entry
      by_cases same : key = uri
      · rw [List.filter_cons_of_neg (by simpa using same)]
        exact ih
      · have differ : (uri == key) = false := by simpa using Ne.symm same
        rw [List.filter_cons_of_pos (by simpa using same), List.lookup_cons, differ]
        exact ih

theorem get?_close_of_ne (store : OpenDocuments) {uri other : String} (ne : other ≠ uri) :
    (store.close uri).get? other = store.get? other := by
  simp only [get?, close]
  induction store.entries with
  | nil => rfl
  | cons entry others ih =>
      obtain ⟨key, text⟩ := entry
      by_cases same : key = uri
      · have differ : (other == key) = false := by simpa [same] using ne
        rw [List.filter_cons_of_neg (by simpa using same), List.lookup_cons, differ]
        exact ih
      · rw [List.filter_cons_of_pos (by simpa using same), List.lookup_cons, List.lookup_cons, ih]

@[simp] theorem get?_insert_self (store : OpenDocuments) (uri text : String) :
    (store.insert uri text).get? uri = some text := by
  simp [get?, insert]

theorem get?_insert_of_ne (store : OpenDocuments) {uri other text : String} (ne : other ≠ uri) :
    (store.insert uri text).get? other = store.get? other := by
  have differ : (other == uri) = false := by simpa using ne
  rw [← store.get?_close_of_ne ne]
  simp [get?, insert, List.lookup_cons, differ]

end OpenDocuments

end ContractLens
