import ContractLens.Proofs.Document.Batch
import ContractLens.Server

/-!
# Documents in isolation

What a server does about one document depends on the requests about that document
alone: the text that it keeps, and every reply, are those of a server to which nothing
else was ever said.  The text is made by opening the document and by the batches of
changes that fit as a whole, and a question is answered for just this text.
-/

namespace ContractLens

/-! ## Requests about a document -/

namespace Request

def uri? : Request → Option String
  | initialized | shutdown => none
  | didOpen uri _ | didChange uri _ | didClose uri | definition uri _ => some uri

def isAbout (uri : String) (request : Request) : Bool :=
  request.uri? = some uri

/--
What a request makes of the text of its document: opening gives a text, closing takes
it, and a batch of changes counts as a whole or not at all.
-/
def update (text? : Option String) : Request → Option String
  | didOpen _ text => some text
  | didChange _ events =>
      text?.map fun text =>
        ((events.map Change.ofEvent).foldlM Change.apply text).toOption.getD text
  | didClose _ => none
  | initialized | shutdown | definition _ _ => text?

/-- The text at an address behind a request, by the text in front of it. -/
def textBehind (uri : String) (text? : Option String) (request : Request) : Option String :=
  if request.isAbout uri then request.update text? else text?

theorem textBehind_of_not_isAbout {uri : String} {request : Request}
    (other : request.isAbout uri = false) (text? : Option String) :
    request.textBehind uri text? = text? := by
  simp [textBehind, other]

end Request

/-- The text of a document behind requests to a server on which nothing is open. -/
def textOf (uri : String) (requests : List Request) : Option String :=
  requests.foldl (Request.textBehind uri) none

/-- The reply that says where a name is declared. -/
def Reply.ofLookup (uri : String) : Except LookupError (Option Position) → Reply
  | .ok (some declared) => .silent (.location uri declared)
  | .ok none => .silent .nothing
  | .error (.notInScope name) =>
      ⟨.nothing, [.shown .warning (LookupError.notInScope name).message]⟩
  | .error (.parse error) => .silent (.failure error.message)

namespace Server

variable {uri : String}

/-! ## One request -/

theorem handle_didChange (documents : OpenDocuments) (uri : String)
    (events : List ChangeEvent) :
    handle documents (.didChange uri events) =
      match documents.get? uri with
      | none => (⟨.nothing, [.log .error
          s!"{uri}: {(ChangeError.unknownDocument uri).message}"]⟩, documents)
      | some text =>
          match (events.map Change.ofEvent).foldlM Change.apply text with
          | .ok changed => (.silent .nothing, documents.insert uri changed)
          | .error error => (⟨.nothing, [.log .error s!"{uri}: {error.message}"]⟩, documents) := by
  rw [handle, OpenDocuments.applyChanges]
  cases documents.get? uri with
  | none => rfl
  | some text =>
      dsimp only
      rw [Change.applyAll_eq_foldlM]
      cases (events.map Change.ofEvent).foldlM Change.apply text <;> rfl

theorem answerDefinition_eq (documents : OpenDocuments) (uri : String) (position : Position) :
    answerDefinition documents uri position =
      match documents.get? uri with
      | none => .silent .nothing
      | some text => .ofLookup uri (Document.declarationAt text position) := by
  rw [answerDefinition]
  cases documents.get? uri with
  | none => rfl
  | some text => rcases Document.declarationAt text position with (_ | _) | (_ | _) <;> rfl

/-- A request leaves the documents that it is not about as they were. -/
theorem get?_handle_of_not_isAbout {request : Request} (other : request.isAbout uri = false)
    (documents : OpenDocuments) :
    (handle documents request).2.get? uri = documents.get? uri := by
  have differ : ∀ own, request.uri? = some own → uri ≠ own := by
    rintro own same rfl
    simp [Request.isAbout, same] at other
  cases request with
  | initialized => rfl
  | shutdown => rfl
  | didOpen own text => exact documents.get?_insert_of_ne (differ own rfl)
  | didChange own events =>
      rw [handle_didChange]
      cases documents.get? own with
      | none => rfl
      | some text =>
          dsimp only
          cases (events.map Change.ofEvent).foldlM Change.apply text with
          | error error => rfl
          | ok changed => exact documents.get?_insert_of_ne (differ own rfl)
  | didClose own => exact documents.get?_close_of_ne (differ own rfl)
  | definition own position => rfl

/-- Behind a request a document has the text that the request makes of the one before. -/
theorem get?_handle (documents : OpenDocuments) (request : Request) (uri : String) :
    (handle documents request).2.get? uri = request.textBehind uri (documents.get? uri) := by
  cases about : request.isAbout uri with
  | false =>
      rw [Request.textBehind_of_not_isAbout about, get?_handle_of_not_isAbout about]
  | true =>
      have same : request.uri? = some uri := by simpa [Request.isAbout] using about
      rw [Request.textBehind, if_pos about]
      cases request with
      | initialized => cases same
      | shutdown => cases same
      | didOpen own text =>
          cases same
          exact documents.get?_insert_self uri text
      | didChange own events =>
          cases same
          rw [handle_didChange]
          cases opened : documents.get? uri with
          | none => exact opened
          | some text =>
              rw [Request.update, Option.map_some]
              dsimp only
              cases (events.map Change.ofEvent).foldlM Change.apply text with
              | error error => exact opened
              | ok changed => exact documents.get?_insert_self uri changed
      | didClose own =>
          cases same
          exact documents.get?_close_self uri
      | definition own position => rfl

/-- The reply to a request depends on the text of the document that it is about alone. -/
theorem fst_handle_of_get?_eq {first second : OpenDocuments} {request : Request}
    (about : request.isAbout uri = true) (agree : first.get? uri = second.get? uri) :
    (handle first request).1 = (handle second request).1 := by
  have same : request.uri? = some uri := by simpa [Request.isAbout] using about
  cases request with
  | initialized => cases same
  | shutdown => cases same
  | didOpen other text => rfl
  | didChange other events =>
      cases same
      rw [handle_didChange, handle_didChange, agree]
      cases second.get? uri with
      | none => rfl
      | some text =>
          dsimp only
          cases (events.map Change.ofEvent).foldlM Change.apply text <;> rfl
  | didClose other => rfl
  | definition other position =>
      cases same
      simp only [handle, answerDefinition_eq, agree]

/-! ## Runs -/

theorem run_append (documents : OpenDocuments) (front back : List Request) :
    run documents (front ++ back) =
      ((run documents front).1 ++ (run (run documents front).2 back).1,
        (run (run documents front).2 back).2) := by
  induction front generalizing documents with
  | nil => rfl
  | cons request front ih => simp [run, ih]

theorem length_run (documents : OpenDocuments) (requests : List Request) :
    (run documents requests).1.length = requests.length := by
  induction requests generalizing documents with
  | nil => rfl
  | cons request requests ih => simp [run, ih]

theorem get?_run (documents : OpenDocuments) (requests : List Request) (uri : String) :
    (run documents requests).2.get? uri =
      requests.foldl (Request.textBehind uri) (documents.get? uri) := by
  induction requests generalizing documents with
  | nil => rfl
  | cons request requests ih => rw [run, ih, get?_handle, List.foldl_cons]

/-- Requests about other documents may be left out. -/
theorem get?_run_filter (requests : List Request) (uri : String) :
    (run .empty (requests.filter (Request.isAbout uri))).2.get? uri =
      (run .empty requests).2.get? uri := by
  rw [get?_run, get?_run, List.foldl_filter]
  congr 1
  funext text? request
  split
  · rfl
  · next other => exact (Request.textBehind_of_not_isAbout (by simpa using other) text?).symm

/-- The replies about a document are those of a server that agrees on its text. -/
theorem replies_filter {first second : OpenDocuments} (agree : first.get? uri = second.get? uri)
    (requests : List Request) :
    ((requests.zip (run first requests).1).filter fun (request, _) =>
        request.isAbout uri).map Prod.snd =
      (run second (requests.filter (Request.isAbout uri))).1 := by
  -- The two servers agree on this text only, which each request keeps up.
  induction requests generalizing first second with
  | nil => rfl
  | cons request requests ih =>
      cases about : request.isAbout uri with
      | true =>
          have after : (handle first request).2.get? uri = (handle second request).2.get? uri := by
            rw [get?_handle, get?_handle, agree]
          simp [run, about, ih after, fst_handle_of_get?_eq about agree]
      | false =>
          have after : (handle first request).2.get? uri = second.get? uri := by
            rw [get?_handle, Request.textBehind_of_not_isAbout about, agree]
          simp [run, about, ih after]

/-- What a server does about a document, whatever else it is asked. -/
structure Isolated (requests : List Request) (uri : String) : Prop where
  /-- The replies are those of a server that is asked about this document only. -/
  replies : ((requests.zip (run .empty requests).1).filter fun (request, _) =>
      request.isAbout uri).map Prod.snd =
    (run .empty (requests.filter (Request.isAbout uri))).1
  /-- So is the text behind each of the requests. -/
  texts : ∀ front, front <+: requests →
    (run .empty front).2.get? uri =
      (run .empty (front.filter (Request.isAbout uri))).2.get? uri
  /-- A question changes no document. -/
  unchanged : ∀ documents position, (handle documents (.definition uri position)).2 = documents
  /-- A question is answered for the text that the document has then, if it is open. -/
  answered : ∀ front position, front ++ [.definition uri position] <+: requests →
    (run .empty requests).1[front.length]? = some
      (match textOf uri front with
        | none => .silent .nothing
        | some text => .ofLookup uri (Document.declarationAt text position))

/-- No request about one document shows in what a server does about another one. -/
theorem isolated (requests : List Request) (uri : String) : Isolated requests uri := by
  constructor
  case replies => exact replies_filter rfl requests
  case texts =>
    intro front _
    exact (get?_run_filter front uri).symm
  case unchanged =>
    intro documents position
    rfl
  case answered =>
    rintro front position ⟨back, rfl⟩
    have within := Nat.le_of_eq (length_run .empty front)
    rw [List.append_assoc, List.singleton_append, run_append, List.getElem?_append_right within,
      length_run, Nat.sub_self, run, List.getElem?_cons_zero, handle, answerDefinition_eq, get?_run]
    rfl

end Server

end ContractLens
