import ContractLens.Grammar.Error
import ContractLens.LineIndex

/-!
# Error reports

A refused source is reported with a message, the place of the token that was
found, and a label for it.  In a report every line terminator of Unicode ends a
line, a carriage return and the line feed behind it being one, and a terminator
belongs to the line it ends.  The end of the text stays on its last line.
-/

namespace ContractLens.CommandLine

/-- A character that ends a line of a report. -/
def isLineEnd (c : Char) : Bool :=
  c == '\r' || c == '\n' || c == '\x0b' || c == '\x0c' ||
    c == '\u0085' || c == '\u2028' || c == '\u2029'

/-- A new line begins behind `c`, where `following` is the text behind it. -/
def breaksLine (c : Char) (following : List Char) : Bool :=
  match following with
  | [] => false
  | next :: _ => isLineEnd c && !(c == '\r' && next == '\n')

/-- The coordinate that lies `count` characters behind `here`, the coordinate of the given text. -/
def advance (here : Coordinate) : (count : Nat) → List Char → Coordinate
  | 0, _ => here
  | _, [] => here
  | count + 1, c :: cs =>
      if breaksLine c cs then
        advance ⟨here.line + 1, 1⟩ count cs
      else
        advance ⟨here.line, here.character + 1⟩ count cs

def reportCoordinate (text : String) (offset : Nat) : Coordinate :=
  advance ⟨1, 1⟩ offset text.toList

structure ErrorReport where
  message : String
  place : String
  label : String
  deriving DecidableEq, Repr

/-- The label of a token that was not accepted. -/
def foundLabel : Token → String
  | .lexeme lexeme => s!"unexpected {lexeme.kind.display}"
  | .endOfInput _ => "input ends here"

def ErrorReport.of (path text : String) (error : ParseError) : ErrorReport :=
  let coordinate := reportCoordinate text error.pos
  { message := error.detail
    place := s!"{path}:{coordinate.line}:{coordinate.character}"
    label := foundLabel error.found }

end ContractLens.CommandLine
