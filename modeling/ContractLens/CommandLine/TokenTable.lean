import ContractLens.LineIndex
import ContractLens.Text.Indentation
import ContractLens.Token.Lexeme

/-!
# Token tables

A table with a row for every token of a text: its offset, its coordinate, its
kind and its text.  Below it stand the counts.
-/

namespace ContractLens.CommandLine

/-- A text filled up with spaces to a width; a wider text is kept. -/
def column (width : Nat) (text : String) : String :=
  text ++ Text.spaces (width - text.length)

def tableRow (offset coordinate kind text : String) : String :=
  s!"{column 8 offset} {column 10 coordinate} {column 12 kind} {text}\n"

/-- A coordinate in the table: line and character, or a dash if there is none. -/
def coordinateText : Option Coordinate → String
  | some coordinate => s!"{coordinate.line}:{coordinate.character}"
  | none => "-"

def tokenRow (index : LineIndex) (token : Token) : String :=
  tableRow (toString token.pos) (coordinateText (index.coordinate? token.pos)) token.name
    token.literal

def tokenTable (text : String) : String :=
  let tokens := tokensOf text
  let index := LineIndex.ofText text
  let identifiers := tokens.countP (·.hasKind .identifier)
  let illegal := tokens.countP (·.hasKind .illegal)
  tableRow "POS" "LINE:COL" "TOKEN" "LITERAL" ++
    String.ofList (List.replicate 48 '-') ++ "\n" ++
    String.join (tokens.map (tokenRow index)) ++
    s!"\nTotal tokens: {tokens.length} ({identifiers} identifiers, {illegal} illegal), " ++
    s!"lines: {index.lineCount}\n"

end ContractLens.CommandLine
