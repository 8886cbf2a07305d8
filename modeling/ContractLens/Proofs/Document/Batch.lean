import ContractLens.Document.Store
import ContractLens.Proofs.Document.Splice
import Mathlib.Data.List.Nodup

/-!
# Batches of changes

A batch is made to a copy of the text of an open document, each change to the text
that the one before left, and the copy takes the place of the text only when all of
them fit.  So the first change that is refused decides the error and the store stays
as it is; a batch in two parts is the one part and then the other.
-/

namespace ContractLens

/-! ## Changes one after the other -/

namespace Change

variable {text : String} {changes : List Change} {error : ChangeError}

theorem applyAll_eq_foldlM (text : String) (changes : List Change) :
    applyAll text changes = changes.foldlM apply text := by
  induction changes generalizing text with
  | nil => rfl
  | cons change changes ih =>
      rw [applyAll, List.foldlM_cons]
      cases change.apply text with
      | error error => rfl
      | ok changed => exact ih changed

theorem foldlM_cons_of_ok {change : Change} {next : String}
    (fits : change.apply text = .ok next) (changes : List Change) :
    (change :: changes).foldlM apply text = changes.foldlM apply next := by
  rw [List.foldlM_cons, fits]
  rfl

theorem foldlM_cons_of_error {change : Change} (refused : change.apply text = .error error)
    (changes : List Change) : (change :: changes).foldlM apply text = .error error := by
  rw [List.foldlM_cons, refused]
  rfl

theorem foldlM_append_of_ok {front : List Change} {next : String}
    (fits : front.foldlM apply text = .ok next) (back : List Change) :
    (front ++ back).foldlM apply text = back.foldlM apply next := by
  rw [List.foldlM_append, fits]
  rfl

/-- A change is refused for the text that those in front of it left, and is the first one. -/
def FirstRefused (text : String) (changes : List Change) (error : ChangeError) : Prop :=
  ∃ done change others patched, changes = done ++ change :: others ∧
    done.foldlM apply text = .ok patched ∧ change.apply patched = .error error

theorem foldlM_eq_error_iff :
    changes.foldlM apply text = .error error ↔ FirstRefused text changes error := by
  induction changes generalizing text with
  | nil =>
      refine iff_of_false nofun ?_
      rintro ⟨done, change, others, patched, parts, _⟩
      simp at parts
  | cons change changes ih =>
      cases result : change.apply text with
      | error cause =>
          rw [foldlM_cons_of_error result, Except.error.injEq]
          constructor
          · rintro rfl
            exact ⟨[], change, changes, text, rfl, rfl, result⟩
          · rintro ⟨_ | ⟨head, done⟩, last, others, patched, parts, fits, refused⟩
            · cases parts
              cases fits
              exact Except.error.inj (result.symm.trans refused)
            · cases parts
              cases (foldlM_cons_of_error result done).symm.trans fits
      | ok next =>
          rw [foldlM_cons_of_ok result, ih]
          constructor
          · rintro ⟨done, last, others, patched, rfl, fits, refused⟩
            exact ⟨change :: done, last, others, patched, rfl,
              (foldlM_cons_of_ok result done).trans fits, refused⟩
          · rintro ⟨_ | ⟨head, done⟩, last, others, patched, parts, fits, refused⟩
            · cases parts
              cases fits
              cases result.symm.trans refused
            · cases parts
              exact ⟨done, last, others, patched, rfl,
                (foldlM_cons_of_ok result done).symm.trans fits, refused⟩

end Change

namespace OpenDocuments

variable (store : OpenDocuments) {uri : String}

/-- Every address occurs once, so closing an open document leaves one entry less. -/
theorem size_close_of_get? {text : String} (opened : store.get? uri = some text) :
    (store.close uri).size + 1 = store.size := by
  obtain ⟨before, after, entries, _⟩ := List.lookup_eq_some_iff.mp opened
  have unique := store.nodup
  rw [entries, List.map_append, List.map_cons, List.nodup_middle, List.nodup_cons,
    List.mem_append, not_or] at unique
  have others : ∀ part : List (String × String), uri ∉ part.map Prod.fst →
      part.filter (fun entry => entry.1 != uri) = part := by
    intro part absent
    rw [List.filter_eq_self]
    intro entry member
    have differ : entry.1 ≠ uri := fun same => absent (same ▸ List.mem_map_of_mem member)
    simpa using differ
  simp [close, size, entries, others before unique.1.1, others after unique.1.2, Nat.add_assoc]

theorem size_insert_of_get? {text : String} (opened : store.get? uri = some text)
    (changed : String) : (store.insert uri changed).size = store.size :=
  store.size_close_of_get? opened

theorem insert_insert (uri first second : String) :
    (store.insert uri first).insert uri second = store.insert uri second := by
  simp [insert, close]

/-! ## Batches -/

theorem applyChanges_of_ok {text changed : String} {changes : List Change}
    (opened : store.get? uri = some text)
    (fits : changes.foldlM Change.apply text = .ok changed) :
    store.applyChanges uri changes = .ok (store.insert uri changed) := by
  simp only [applyChanges, Change.applyAll_eq_foldlM, opened, fits]

theorem applyChanges_of_error {text : String} {changes : List Change} {error : ChangeError}
    (opened : store.get? uri = some text)
    (refused : changes.foldlM Change.apply text = .error error) :
    store.applyChanges uri changes = .error error := by
  simp only [applyChanges, Change.applyAll_eq_foldlM, opened, refused]

theorem applyChanges_of_none (missing : store.get? uri = none) (changes : List Change) :
    store.applyChanges uri changes = .error (.unknownDocument uri) := by
  simp only [applyChanges, missing]

theorem applyChanges_eq_ok_iff {changes : List Change} {next : OpenDocuments} :
    store.applyChanges uri changes = .ok next ↔
      ∃ text changed, store.get? uri = some text ∧
        changes.foldlM Change.apply text = .ok changed ∧ store.insert uri changed = next := by
  cases opened : store.get? uri with
  | none => simp [applyChanges_of_none store opened]
  | some text =>
      cases result : changes.foldlM Change.apply text with
      | error error => simp [applyChanges_of_error store opened result, result]
      | ok changed => simp [applyChanges_of_ok store opened result, result]

theorem applyChanges_eq_error_iff {changes : List Change} {error : ChangeError} :
    store.applyChanges uri changes = .error error ↔
      (store.get? uri = none ∧ error = .unknownDocument uri) ∨
        ∃ text, store.get? uri = some text ∧ Change.FirstRefused text changes error := by
  simp only [← Change.foldlM_eq_error_iff]
  cases opened : store.get? uri with
  | none => simp [applyChanges_of_none store opened, eq_comm]
  | some text =>
      cases result : changes.foldlM Change.apply text with
      | error cause => simp [applyChanges_of_error store opened result, result]
      | ok changed => simp [applyChanges_of_ok store opened result, result]

theorem applyChanges_append (uri : String) (front back : List Change) :
    store.applyChanges uri (front ++ back) =
      (store.applyChanges uri front).bind fun next => next.applyChanges uri back := by
  cases opened : store.get? uri with
  | none => simp [applyChanges_of_none store opened, Except.bind]
  | some text =>
      cases result : front.foldlM Change.apply text with
      | error error =>
          have whole : (front ++ back).foldlM Change.apply text = .error error := by
            rw [List.foldlM_append, result]
            rfl
          rw [applyChanges_of_error store opened whole, applyChanges_of_error store opened result]
          rfl
      | ok changed =>
          have whole := Change.foldlM_append_of_ok result back
          rw [applyChanges_of_ok store opened result]
          have next := store.get?_insert_self uri changed
          simp only [Except.bind, applyChanges, Change.applyAll_eq_foldlM, opened, whole, next,
            insert_insert]

end OpenDocuments

/-! ## Batches in place -/

namespace InPlace

/-- A change of a copy of a text, while the open documents stay as they are. -/
def performOnCopy (text : String) (change : Change) :
    EStateM Interruption OpenDocuments String :=
  match (perform change).run text with
  | .ok _ next => pure next
  | .error why _ => throw why

/-- Changes of an open document: they are made to a copy, which is put back at the end. -/
def performAll (uri : String) (changes : List Change) :
    EStateM Interruption OpenDocuments Unit := do
  match (← get).get? uri with
  | none => throw (.refused (.unknownDocument uri))
  | some text => do
      let changed ← changes.foldlM performOnCopy text
      modify fun store => store.insert uri changed

/-- While a copy is changed the open documents stay as they are. -/
theorem run_foldlM_performOnCopy (store : OpenDocuments) (text : String)
    (changes : List Change) :
    (changes.foldlM performOnCopy text).run store =
      match changes.foldlM Change.apply text with
      | .ok changed => .ok changed store
      | .error error => .error (.refused error) store := by
  induction changes generalizing text with
  | nil => rfl
  | cons change changes ih =>
      have step := run_perform text change
      rw [List.foldlM_cons, EStateM.run_bind]
      cases result : change.apply text with
      | error error =>
          simp only [result] at step
          simp only [performOnCopy, step, Change.foldlM_cons_of_error result]
          rfl
      | ok next =>
          simp only [result] at step
          simp only [performOnCopy, step, Change.foldlM_cons_of_ok result]
          exact ih next

/-- In place a batch does what it does to the store, and a refused one leaves the store. -/
theorem run_performAll (store : OpenDocuments) (uri : String) (changes : List Change) :
    (performAll uri changes).run store =
      match store.applyChanges uri changes with
      | .ok next => .ok () next
      | .error error => .error (.refused error) store := by
  simp only [performAll, EStateM.run_bind, EStateM.run_get]
  cases opened : store.get? uri with
  | none =>
      rw [OpenDocuments.applyChanges_of_none store opened]
      rfl
  | some text =>
      simp only [EStateM.run_bind, run_foldlM_performOnCopy]
      cases result : changes.foldlM Change.apply text with
      | error error =>
          rw [OpenDocuments.applyChanges_of_error store opened result]
      | ok changed =>
          rw [OpenDocuments.applyChanges_of_ok store opened result]
          rfl

end InPlace

namespace OpenDocuments

/-- What a batch of changes of one document does to the open documents. -/
structure Atomic (store : OpenDocuments) (uri : String) : Prop where
  /-- It is made if the document is open and each change fits what the one before left. -/
  accepted : ∀ changes text changed, store.get? uri = some text →
    changes.foldlM Change.apply text = .ok changed →
      ∃ next, store.applyChanges uri changes = .ok next
  /-- Only then is it made; the document has the last text, and the others stay as they are. -/
  effect : ∀ changes next, store.applyChanges uri changes = .ok next →
    ∃ text changed, store.get? uri = some text ∧
      changes.foldlM Change.apply text = .ok changed ∧ next.get? uri = some changed ∧
        (∀ other, other ≠ uri → next.get? other = store.get? other) ∧ next.size = store.size
  /-- Otherwise the document is not open, or the first change that does not fit is the error. -/
  refused : ∀ changes error, store.applyChanges uri changes = .error error ↔
    (store.get? uri = none ∧ error = .unknownDocument uri) ∨
      ∃ text, store.get? uri = some text ∧ Change.FirstRefused text changes error
  /-- In place the open documents are the same after a refusal, wherever it happened. -/
  inPlace : ∀ changes, (InPlace.performAll uri changes).run store =
    match store.applyChanges uri changes with
    | .ok next => .ok () next
    | .error error => .error (.refused error) store
  /-- A batch in two parts is the one part and then the other. -/
  append : ∀ front back, store.applyChanges uri (front ++ back) =
    (store.applyChanges uri front).bind fun next => next.applyChanges uri back

/-- Batches of changes are made one change after the other, as a whole or not at all. -/
theorem atomic (store : OpenDocuments) (uri : String) : Atomic store uri where
  accepted changes text changed opened fits :=
    ⟨store.insert uri changed, store.applyChanges_of_ok opened fits⟩
  effect := by
    intro changes next done
    obtain ⟨text, changed, opened, fits, rfl⟩ := store.applyChanges_eq_ok_iff.mp done
    refine ⟨text, changed, opened, fits, store.get?_insert_self uri changed, ?_, ?_⟩
    · intro other differ
      exact store.get?_insert_of_ne differ
    · exact store.size_insert_of_get? opened changed
  refused _ _ := store.applyChanges_eq_error_iff
  inPlace := InPlace.run_performAll store uri
  append := store.applyChanges_append uri

end OpenDocuments

end ContractLens
