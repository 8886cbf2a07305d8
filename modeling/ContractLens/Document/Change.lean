import ContractLens.Document.Position

/-!
# Changes of a document

A change replaces the whole text, the text between two positions, or a number
of characters from a position on.  Positions become byte offsets, and the text
between two byte offsets is replaced.  A change that does not fit its text is
refused: first its start is looked at, then its end.
-/

namespace ContractLens

inductive Change where
  | full (text : String)
  | range (start stop : Position) (text : String)
  | length (start : Position) (count : Nat) (text : String)
  deriving DecidableEq, Repr

/-- A change as an editor sends it: a range, if not the whole text, and perhaps its length. -/
structure ChangeEvent where
  range? : Option (Position × Position)
  rangeLength? : Option Nat
  text : String
  deriving DecidableEq, Repr

/-- The change that an event asks for; a length other than zero goes before the end of the range. -/
def Change.ofEvent (event : ChangeEvent) : Change :=
  match event.range?, event.rangeLength? with
  | none, _ => .full event.text
  | some (start, stop), none => .range start stop event.text
  | some (start, stop), some 0 => .range start stop event.text
  | some (start, _), some count => .length start count event.text

inductive ChangeError where
  | unknownDocument (uri : String)
  | invalidStart (position : Position)
  | invalidEnd (position : Position)
  | outOfRange (start : Position) (count : Nat)
  deriving DecidableEq, Repr

def ChangeError.message : ChangeError → String
  | unknownDocument uri => s!"received change for unknown document {uri}"
  | invalidStart position => s!"invalid start position {position.text}"
  | invalidEnd position => s!"invalid end position {position.text}"
  | outOfRange start count =>
      s!"change of {count} characters at {start.text} runs past the end of the document"

/-- The text with what lies between two byte offsets replaced. -/
def replaceBytes (text : String) (first last : Nat) (replacement : String) : String :=
  String.ofList
    (Text.takeBytes first text.toList ++ replacement.toList ++ Text.dropBytes last text.toList)

/-- The byte offset that lies a number of characters behind another one. -/
def byteOffsetAfter? (text : String) (offset count : Nat) : Option Nat :=
  let following := Text.dropBytes offset text.toList
  if count ≤ following.length then
    some (offset + Text.byteLength (following.take count))
  else
    none

/-- The text after a change, or why the change is refused. -/
def Change.apply (text : String) : Change → Except ChangeError String
  | full replacement => .ok replacement
  | range start stop replacement =>
      match byteOffset? text start with
      | none => .error (.invalidStart start)
      | some first =>
          match (byteOffset? text stop).filter (first ≤ ·) with
          | none => .error (.invalidEnd stop)
          | some last => .ok (replaceBytes text first last replacement)
  | length start count replacement =>
      match byteOffset? text start with
      | none => .error (.invalidStart start)
      | some first =>
          match byteOffsetAfter? text first count with
          | none => .error (.outOfRange start count)
          | some last => .ok (replaceBytes text first last replacement)

/-- The text after changes, each made to the text that the one before it left. -/
def Change.applyAll (text : String) : List Change → Except ChangeError String
  | [] => .ok text
  | change :: others =>
      match change.apply text with
      | .error error => .error error
      | .ok next => applyAll next others

end ContractLens
