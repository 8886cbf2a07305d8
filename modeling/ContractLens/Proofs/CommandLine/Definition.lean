import ContractLens.CommandLine.Run
import ContractLens.Proofs.Document.Lookup
import ContractLens.Proofs.Document.Validity

/-!
# Definitions on the command line

The command line is asked for a definition at a place counted from one, and a document
at one counted from zero.  Both read the text and look for the declaration, each in
its own way; they find the same place, and where the document has no answer the
command line tells why.
-/

namespace ContractLens.CommandLine

/-- The coordinate of the declaration of the name at a coordinate of a text. -/
def definitionCoordinate (path text : String) (coordinate : Coordinate) :
    Except CommandError Coordinate :=
  match parse text with
  | (.error error, _) => .error (.parse path text error)
  | (.ok program, index) => declarationCoordinate program index coordinate

variable {path text : String} {program : Program} {position : Position}

theorem definitionText_eq (path text : String) (coordinate : Coordinate) :
    definitionText path text coordinate =
      (definitionCoordinate path text coordinate).map fun found =>
        s!"{path}:{found.line}:{found.character}\n" := by
  rw [definitionText, definitionCoordinate]
  rcases parse text with ⟨error | program, index⟩ <;> rfl

theorem run_definition {read : String → Except ReadError String} (readable : read path = .ok text)
    (line character : Nat) :
    (Command.definition path line character).run read =
      (definitionCoordinate path text ⟨line, character⟩).map fun found =>
        s!"{path}:{found.line}:{found.character}\n" := by
  rw [Command.run, Command.run.source, readable, ← definitionText_eq]
  rfl

theorem definitionCoordinate_of_error {error : ParseError} (failed : (parse text).1 = .error error)
    (path : String) (coordinate : Coordinate) :
    definitionCoordinate path text coordinate = .error (.parse path text error) := by
  rw [definitionCoordinate, parse_eq_of_error failed]

theorem definitionCoordinate_of_ok (parsed : (parse text).1 = .ok program) (path : String)
    (coordinate : Coordinate) :
    definitionCoordinate path text coordinate =
      declarationCoordinate program (.ofText text) coordinate := by
  rw [definitionCoordinate, parse_eq_of_ok parsed]

theorem definitionCoordinate_zero (parsed : (parse text).1 = .ok program) (path : String)
    {coordinate : Coordinate} (zero : coordinate.line = 0 ∨ coordinate.character = 0) :
    definitionCoordinate path text coordinate = .error (.noSuchPosition coordinate) := by
  have nothing : (LineIndex.ofText text).offset? coordinate = none := by
    obtain ⟨line, character⟩ := coordinate
    rcases zero with rfl | rfl
    · rfl
    · cases line <;> rfl
  rw [definitionCoordinate_of_ok parsed, declarationCoordinate, nothing]

/-! ## Two answers -/

/-- An answer about a document and one on the command line that say the same. -/
inductive Agree (path text : String) (position : Position) :
    Except LookupError (Option Position) → Except CommandError Coordinate → Prop where
  | found (place : Position) : Agree path text position (.ok (some place)) (.ok place.toCoordinate)
  | outside : Agree path text position (.ok none) (.error (.noSuchPosition position.toCoordinate))
  | nameless : Agree path text position (.ok none) (.error (.definition .unknownPosition))
  | missing (name : String) : Agree path text position (.error (.notInScope name))
      (.error (.definition (.notInScope name)))
  | refused (error : ParseError) : Agree path text position (.error (.parse error))
      (.error (.parse path text error))

theorem agree_definitionCoordinate (path text : String) (position : Position) :
    Agree path text position (Document.declarationAt text position)
      (definitionCoordinate path text position.toCoordinate) := by
  cases result : (parse text).1 with
  | error error =>
      rw [Document.declarationAt_of_error result, definitionCoordinate_of_error result]
      exact .refused error
  | ok program =>
      rw [Document.declarationAt_of_ok result, definitionCoordinate_of_ok result,
        declarationCoordinate]
      cases standing : (LineIndex.ofText text).offset? position.toCoordinate with
      | none => exact .outside
      | some target =>
          dsimp only
          cases answer : program.declarationAt target with
          | error cause =>
              cases cause with
              | unknownPosition => exact .nameless
              | notInScope name => exact .missing name
          | ok declared =>
              -- What is declared begins with a character, so the fallback is not met.
              have located := Document.isSome_coordinate? result answer
              rw [index_of_parse result] at located
              obtain ⟨coordinate, found⟩ := Option.isSome_iff_exists.mp located
              obtain ⟨place, rfl, _⟩ := LineIndex.offset?_of_coordinate? found
              simp only [found, Option.map_some, Position.ofCoordinate_toCoordinate]
              exact .found place

namespace Agree

variable {lookup : Except LookupError (Option Position)} {answer : Except CommandError Coordinate}

theorem ok_iff (agree : Agree path text position lookup answer) {found : Coordinate} :
    answer = .ok found ↔ ∃ place, lookup = .ok (some place) ∧ place.toCoordinate = found := by
  cases agree <;> simp

theorem nothing_iff (agree : Agree path text position lookup answer) :
    (answer = .error (.noSuchPosition position.toCoordinate) ∨
      answer = .error (.definition .unknownPosition)) ↔ lookup = .ok none := by
  cases agree <;> simp

theorem missing_iff (agree : Agree path text position lookup answer) {name : String} :
    answer = .error (.definition (.notInScope name)) ↔ lookup = .error (.notInScope name) := by
  cases agree <;> simp

theorem refused_iff (agree : Agree path text position lookup answer) {error : ParseError} :
    answer = .error (.parse path text error) ↔ lookup = .error (.parse error) := by
  cases agree <;> simp

end Agree

/-- What is found is the place of a character, so it counts fewer than there are in the text. -/
theorem line_add_character_lt {place : Position}
    (answer : Document.declarationAt text position = .ok (some place)) :
    place.line + place.character < text.length := by
  obtain ⟨_, _, _, declaration, _, ⟨member, rfl⟩, _⟩ := Document.of_declarationAt_eq_some answer
  have within := (standsAt_of_mem_lexemesOf member).lt_length
  have counted := line_add_character_placeBehind_le (text.toList.take declaration.pos)
  rw [List.length_take, Nat.min_eq_left (Nat.le_of_lt within)] at counted
  rw [← String.length_toList]
  exact Nat.lt_of_le_of_lt counted within

/-- The answers of the command line about a text, by those about a document. -/
structure SameAnswers (path text : String) : Prop where
  /-- What the command writes about a text that it can read is what is found. -/
  written : ∀ read line character, read path = .ok text →
    (Command.definition path line character).run read =
      (definitionCoordinate path text ⟨line, character⟩).map fun found =>
        s!"{path}:{found.line}:{found.character}\n"
  /-- The same place is found, counted from one. -/
  found : ∀ position found, definitionCoordinate path text position.toCoordinate = .ok found ↔
    ∃ place, Document.declarationAt text position = .ok (some place) ∧
      place.toCoordinate = found
  /-- Where a document has no answer, there is no such place or no name is asked for there. -/
  nothing : ∀ position,
    (definitionCoordinate path text position.toCoordinate =
        .error (.noSuchPosition position.toCoordinate) ∨
      definitionCoordinate path text position.toCoordinate =
        .error (.definition .unknownPosition)) ↔
      Document.declarationAt text position = .ok none
  /-- The same names are not in scope. -/
  missing : ∀ position name,
    definitionCoordinate path text position.toCoordinate =
        .error (.definition (.notInScope name)) ↔
      Document.declarationAt text position = .error (.notInScope name)
  /-- The same texts are refused, with the same error. -/
  refused : ∀ position error,
    definitionCoordinate path text position.toCoordinate = .error (.parse path text error) ↔
      Document.declarationAt text position = .error (.parse error)
  /-- In a text that is accepted nothing has the line or the character zero. -/
  zero : ∀ program coordinate, (parse text).1 = .ok program →
    coordinate.line = 0 ∨ coordinate.character = 0 →
      definitionCoordinate path text coordinate = .error (.noSuchPosition coordinate)
  /-- A declaration that is found in the program has a coordinate. -/
  located : ∀ program target declared, (parse text).1 = .ok program →
    program.declarationAt target = .ok declared →
      ((parse text).2.coordinate? declared).isSome = true
  /-- A place that is found counts fewer than the characters of the text. -/
  counted : ∀ position place, Document.declarationAt text position = .ok (some place) →
    place.line + place.character < text.length

/-- The command line and a document give the same answers about every text. -/
theorem sameAnswers (path text : String) : SameAnswers path text where
  written _ line character readable := run_definition readable line character
  found position _ := (agree_definitionCoordinate path text position).ok_iff
  nothing position := (agree_definitionCoordinate path text position).nothing_iff
  missing position _ := (agree_definitionCoordinate path text position).missing_iff
  refused position _ := (agree_definitionCoordinate path text position).refused_iff
  zero _ _ parsed zero := definitionCoordinate_zero parsed path zero
  located _ _ _ parsed := Document.isSome_coordinate? parsed
  counted _ _ := line_add_character_lt

end ContractLens.CommandLine
