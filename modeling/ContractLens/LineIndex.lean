/-!
# Line index

A line index relates the character offsets of a text to coordinates, that is to
one-based lines and characters.  It is filled while the text is scanned, so it
covers as much of the text as has been read.  Only a line feed breaks a line,
and a line feed has no coordinate of its own.

Offsets are recorded in ascending order; then looking an offset up and reading
a coordinate undo each other.
-/

namespace ContractLens

/-- A place as a reader counts it: line and character, both from one. -/
structure Coordinate where
  line : Nat
  character : Nat
  deriving DecidableEq, Repr

/-- The offsets recorded so far, line by line; there is always a current line. -/
structure LineIndex where
  earlier : Array (Array Nat)
  current : Array Nat
  deriving DecidableEq, Repr

namespace LineIndex

def empty : LineIndex :=
  ⟨#[], #[]⟩

/-- Start a new line; what is recorded next belongs to it. -/
def breakLine (index : LineIndex) : LineIndex :=
  ⟨index.earlier.push index.current, #[]⟩

/-- Record the offset of one character on the current line. -/
def push (index : LineIndex) (offset : Nat) : LineIndex :=
  { index with current := index.current.push offset }

/-- Record one character of a text: a line feed starts a line. -/
def recordCharacter (index : LineIndex) (offset : Nat) (c : Char) : LineIndex :=
  if c = '\n' then index.breakLine else index.push offset

/-- Record consecutive characters, the first of them at `offset`. -/
def record (index : LineIndex) (offset : Nat) : List Char → LineIndex
  | [] => index
  | c :: cs => (index.recordCharacter offset c).record (offset + 1) cs

/-- The index of a text that has been read to its end. -/
def ofText (text : String) : LineIndex :=
  empty.record 0 text.toList

theorem record_append (index : LineIndex) (offset : Nat) (front back : List Char) :
    index.record offset (front ++ back) =
      (index.record offset front).record (offset + front.length) back := by
  induction front generalizing index offset with
  | nil => rfl
  | cons c cs ih =>
      simp only [List.cons_append, record, List.length_cons]
      rw [ih, Nat.add_assoc, Nat.add_comm 1]

/-! ## Contents -/

/-- The recorded lines from the first to the current one. -/
def lines (index : LineIndex) : List (Array Nat) :=
  index.earlier.toList ++ [index.current]

@[simp] theorem lines_empty : empty.lines = [#[]] :=
  rfl

@[simp] theorem lines_breakLine (index : LineIndex) :
    index.breakLine.lines = index.lines ++ [#[]] := by
  simp [lines, breakLine]

@[simp] theorem lines_push (index : LineIndex) (offset : Nat) :
    (index.push offset).lines =
      index.earlier.toList ++ [index.current.push offset] :=
  rfl

/-- The number of lines, at least one. -/
def lineCount (index : LineIndex) : Nat :=
  index.lines.length

def offsets (index : LineIndex) : List Nat :=
  index.lines.flatMap Array.toList

def size (index : LineIndex) : Nat :=
  index.offsets.length

/-- Nothing has been recorded on any line. -/
def isEmpty (index : LineIndex) : Bool :=
  index.lines.all Array.isEmpty

/-! ## Looking up -/

/--
Halve the window of `size` places from `base` on until one place is left; the
window keeps the last place whose entry is not above `offset`.
-/
def narrow (offsets : Array Nat) (offset base size : Nat) : Nat :=
  if size ≤ 1 then
    base
  else
    let half := size / 2
    if offset < offsets.getD (base + half) 0 then
      narrow offsets offset base (size - half)
    else
      narrow offsets offset (base + half) (size - half)
termination_by size
decreasing_by all_goals omega

/-- The place of an offset on a line. -/
def placeOn? (offsets : Array Nat) (offset : Nat) : Option Nat :=
  let place := narrow offsets offset 0 offsets.size
  if offsets[place]? = some offset then some place else none

theorem getElem?_of_placeOn? {offsets : Array Nat} {offset place : Nat}
    (found : placeOn? offsets offset = some place) : offsets[place]? = some offset := by
  simp only [placeOn?] at found
  split at found
  · next holds =>
      cases found
      exact holds
  · cases found

/-- The coordinate of a recorded offset, on the first line that holds it. -/
def coordinate? (index : LineIndex) (offset : Nat) : Option Coordinate :=
  index.lines.zipIdx.findSome? fun (offsets, number) =>
    (placeOn? offsets offset).map fun place => ⟨number + 1, place + 1⟩

def line? (index : LineIndex) (offset : Nat) : Option Nat :=
  (index.coordinate? offset).map Coordinate.line

def character? (index : LineIndex) (offset : Nat) : Option Nat :=
  (index.coordinate? offset).map Coordinate.character

/-- The offset recorded at a coordinate; nothing stands on line or character zero. -/
def offset? (index : LineIndex) : Coordinate → Option Nat
  | ⟨line + 1, character + 1⟩ => index.lines[line]?.bind (·[character]?)
  | _ => none

end LineIndex

end ContractLens
