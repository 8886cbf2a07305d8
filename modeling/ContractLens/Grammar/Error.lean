import ContractLens.Token.Basic

/-!
# Parse errors

A source is refused for a cause, at the token that could not be accepted.  The
wording of an error names both.
-/

namespace ContractLens

/-- Why a source is refused. -/
inductive Cause where
  | expected (kind : Kind)
  | expectedExpression
  | expectedImportPath
  | unterminatedPragma (name : String)
  | unterminatedDeclaration (type : String)
  deriving DecidableEq, Repr

/-- A refusal: its cause, and the token that was found. -/
structure ParseError where
  cause : Cause
  found : Token
  deriving DecidableEq, Repr

def Token.description : Token → String
  | lexeme l => s!"{l.kind.display} '{l.literal}'"
  | endOfInput _ => "end of input"

namespace ParseError

def pos (error : ParseError) : Nat :=
  error.found.pos

/-- The wording of an error without its place. -/
def detail (error : ParseError) : String :=
  match error.cause with
  | .expected kind => s!"expected '{kind.display}', found {error.found.description}"
  | .expectedExpression => s!"expected expression, found {error.found.description}"
  | .expectedImportPath => s!"expected import path, found {error.found.description}"
  | .unterminatedPragma name => s!"unterminated pragma '{name}'"
  | .unterminatedDeclaration type => s!"unterminated declaration of type '{type}'"

def message (error : ParseError) : String :=
  s!"{error.detail} at offset {error.pos}"

end ParseError

end ContractLens
