import ContractLens.Document.Lookup
import ContractLens.Document.Store
import ContractLens.Json

/-!
# Language server

The server keeps the open documents of an editor and answers its requests one
after the other.  A request has an answer, and it may send messages to the
editor on the way.
-/

namespace ContractLens

/-- How serious a message is. -/
inductive Severity where
  | error
  | warning
  | info
  deriving DecidableEq, Repr

def Severity.code : Severity → Nat
  | error => 1
  | warning => 2
  | info => 3

/-- A message to the editor: for its log, or to be shown. -/
inductive Message where
  | log (severity : Severity) (text : String)
  | shown (severity : Severity) (text : String)
  deriving DecidableEq, Repr

/-- What an editor asks of the server. -/
inductive Request where
  | initialized
  | shutdown
  | didOpen (uri text : String)
  | didChange (uri : String) (events : List ChangeEvent)
  | didClose (uri : String)
  | definition (uri : String) (position : Position)
  deriving DecidableEq, Repr

inductive Answer where
  | nothing
  | done
  | location (uri : String) (position : Position)
  | failure (message : String)
  deriving DecidableEq, Repr

/-- An answer, and the messages that were sent on the way. -/
structure Reply where
  answer : Answer
  messages : List Message
  deriving DecidableEq, Repr

def Reply.silent (answer : Answer) : Reply :=
  ⟨answer, []⟩

namespace Server

def name : String :=
  "solz"

def version : String :=
  "0.1.0"

/-- What the server offers: definitions, and documents that are kept by ranged changes. -/
def capabilities : Json :=
  .object [
    ("capabilities",
      .object [("definitionProvider", .bool true), ("textDocumentSync", .number 2)]),
    ("serverInfo", .object [("name", .string name), ("version", .string version)])]

/-- The code of an answer that failed inside the server. -/
def failureCode : Int :=
  -32603

/-- The answer to the question where a name in a document is declared. -/
def answerDefinition (documents : OpenDocuments) (uri : String) (position : Position) : Reply :=
  match documents.get? uri with
  | none => .silent .nothing
  | some text =>
      match Document.declarationAt text position with
      | .ok (some declared) => .silent (.location uri declared)
      | .ok none => .silent .nothing
      | .error (.notInScope name) =>
          ⟨.nothing, [.shown .warning (LookupError.notInScope name).message]⟩
      | .error (.parse error) => .silent (.failure error.message)

/-- The reply to a request, and the documents behind it. -/
def handle (documents : OpenDocuments) : Request → Reply × OpenDocuments
  | .initialized =>
      (⟨.nothing, [.log .info s!"{name} language server initialized"]⟩, documents)
  | .shutdown => (.silent .done, documents)
  | .didOpen uri text => (.silent .nothing, documents.insert uri text)
  | .didChange uri events =>
      match documents.applyChanges uri (events.map Change.ofEvent) with
      | .ok changed => (.silent .nothing, changed)
      | .error error => (⟨.nothing, [.log .error s!"{uri}: {error.message}"]⟩, documents)
  | .didClose uri => (.silent .nothing, documents.close uri)
  | .definition uri position => (answerDefinition documents uri position, documents)

/-- The replies to requests, one after the other, and the documents behind them. -/
def run (documents : OpenDocuments) : List Request → List Reply × OpenDocuments
  | [] => ([], documents)
  | request :: others =>
      let (reply, next) := handle documents request
      let (replies, last) := run next others
      (reply :: replies, last)

end Server

end ContractLens
