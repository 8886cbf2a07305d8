import ContractLens.LineIndex
import ContractLens.Text.Bytes

/-!
# Positions in a document

An editor counts lines and the characters of a line from zero.  A position is
valid in a text if it stands in front of a character, at the end of a line or
at the end of the text; then it has a byte offset.
-/

namespace ContractLens

/-- A place as an editor counts it: line and character, both from zero. -/
structure Position where
  line : Nat
  character : Nat
  deriving DecidableEq, Repr

namespace Position

def zero : Position :=
  ⟨0, 0⟩

/-- The place behind a character. -/
def after (position : Position) (c : Char) : Position :=
  if c = '\n' then
    ⟨position.line + 1, 0⟩
  else
    { position with character := position.character + 1 }

/-- The same place counted from one. -/
def toCoordinate (position : Position) : Coordinate :=
  ⟨position.line + 1, position.character + 1⟩

def ofCoordinate (coordinate : Coordinate) : Position :=
  ⟨coordinate.line - 1, coordinate.character - 1⟩

@[simp] theorem ofCoordinate_toCoordinate (position : Position) :
    ofCoordinate position.toCoordinate = position :=
  rfl

/-- Line and character with a colon between them. -/
def text (position : Position) : String :=
  s!"{position.line}:{position.character}"

end Position

/--
The byte offset of a position in what is left of a text, where `here` is the
position of its first character and `offset` the byte offset of it.
-/
def byteOffsetFrom? (position here : Position) (offset : Nat) : List Char → Option Nat
  | [] => if here = position then some offset else none
  | c :: cs =>
      if here = position then
        some offset
      else if position.line < here.line then
        none
      else
        byteOffsetFrom? position (here.after c) (offset + c.utf8Size) cs

/-- The byte offset of a position, if it is valid in the text. -/
def byteOffset? (text : String) (position : Position) : Option Nat :=
  byteOffsetFrom? position .zero 0 text.toList

end ContractLens
