import ContractLens.Declaration.Search
import ContractLens.Document.Position
import ContractLens.Grammar.Program

/-!
# Declarations in a document

Where the name at a position of a document is declared, counted as an editor
counts.  The text is read anew for every question.
-/

namespace ContractLens

inductive LookupError where
  | parse (error : ParseError)
  | notInScope (name : String)
  deriving DecidableEq, Repr

def LookupError.message : LookupError → String
  | parse error => error.message
  | notInScope name => (ResolutionError.notInScope name).message

/-- Where the name at a position is declared; nothing if no name is asked for there. -/
def Document.declarationAt (text : String) (position : Position) :
    Except LookupError (Option Position) :=
  match parse text with
  | (.error error, _) => .error (.parse error)
  | (.ok program, index) =>
      match index.offset? position.toCoordinate with
      | none => .ok none
      | some target =>
          match program.declarationAt target with
          | .ok declared => .ok ((index.coordinate? declared).map Position.ofCoordinate)
          | .error .unknownPosition => .ok none
          | .error (.notInScope name) => .error (.notInScope name)

end ContractLens
