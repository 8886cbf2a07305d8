import ContractLens.Document.Lookup
import ContractLens.Proofs.Declaration.Declared
import ContractLens.Proofs.Token.Scan

/-!
# Soundness of questions about a document

A question is put with a position and answered with one.  Both are turned into
offsets and back by the line index, which holds the whole text once the text has
been read.  So an answer leads from one identifier of the text to another of the
same name.
-/

namespace ContractLens

/-- The name is an identifier of the text whose first character is at the position. -/
def Ident.BeginsAt (name : Ident) (text : String) (position : Position) : Prop :=
  name.lexeme ∈ lexemesOf text ∧ placeAt text.toList name.pos = position

/-- An identifier does not begin with a line feed, so its first character has a place. -/
theorem standsAt_of_mem_lexemesOf {text : String} {name : Ident}
    (member : name.lexeme ∈ lexemesOf text) :
    StandsAt text.toList name.pos (placeAt text.toList name.pos) := by
  obtain ⟨c, found, noFeed⟩ := exists_first_of_mem_lexemesOf member
  exact ⟨c, found, noFeed, rfl⟩

/-- The index of a text finds the first character of an identifier, and nothing else there. -/
theorem LineIndex.offset?_ofText {text : String} {position : Position} {target : Nat} :
    (ofText text).offset? position.toCoordinate = some target ↔
      StandsAt text.toList target position :=
  (holds_ofText text).entries position target

theorem LineIndex.coordinate?_ofText {text : String} {name : Ident}
    (member : name.lexeme ∈ lexemesOf text) :
    (ofText text).coordinate? name.pos = some (placeAt text.toList name.pos).toCoordinate :=
  (holds_ofText text).coordinate?_eq (standsAt_of_mem_lexemesOf member)

namespace Document

theorem declarationAt_of_error {text : String} {error : ParseError}
    (failed : (parse text).1 = .error error) (position : Position) :
    Document.declarationAt text position = .error (.parse error) := by
  rw [Document.declarationAt, parse_eq_of_error failed]

theorem declarationAt_of_ok {text : String} {program : Program}
    (parsed : (parse text).1 = .ok program) (position : Position) :
    Document.declarationAt text position =
      match (LineIndex.ofText text).offset? position.toCoordinate with
      | none => .ok none
      | some target =>
          match program.declarationAt target with
          | .ok declared => .ok (((LineIndex.ofText text).coordinate? declared).map
              Position.ofCoordinate)
          | .error .unknownPosition => .ok none
          | .error (.notInScope name) => .error (.notInScope name) := by
  rewrite [Document.declarationAt, parse_eq_of_ok parsed]
  rfl

theorem declarationAt_cases {text : String} {program : Program}
    (parsed : (parse text).1 = .ok program) (position : Position) :
    Document.declarationAt text position = .ok none ∨
      (∃ reference ∈ program.references, ∃ declaration,
        reference.declaration? program.contracts = some declaration ∧
          reference.name.BeginsAt text position ∧ Document.declarationAt text position =
            .ok (some (placeAt text.toList declaration.pos))) ∨
      (∃ use : Ident, use.BeginsAt text position ∧
        (∀ contract ∈ program.contracts, contract.name.name ≠ use.name) ∧
          Document.declarationAt text position = .error (.notInScope use.name)) := by
  rw [declarationAt_of_ok parsed]
  cases standing : (LineIndex.ofText text).offset? position.toCoordinate with
  | none => exact .inl rfl
  | some target =>
      obtain ⟨_, _, _, place⟩ := LineIndex.offset?_ofText.mp standing
      have answers := Program.answers_declarationAt parsed target
      cases answer : program.declarationAt target with
      | error cause =>
          rw [answer] at answers
          cases answers with
          | unknown _ => exact .inl (by simp only [answer])
          | @undeclared reference member here missing =>
              have begins : reference.name.BeginsAt text position :=
                ⟨reference.mem_lexemesOf member parsed, by rw [here, place]⟩
              exact .inr (.inr ⟨reference.name, begins,
                Reference.no_contract_of_eq_none missing, by simp only [answer]⟩)
      | ok declared =>
          rw [answer] at answers
          cases answers with
          | @declared reference declaration member here found =>
              have begins : reference.name.BeginsAt text position :=
                ⟨reference.mem_lexemesOf member parsed, by rw [here, place]⟩
              obtain ⟨_, declares⟩ := Reference.of_declaration?_eq_some member found
              have located := LineIndex.coordinate?_ofText (declares.mem_lexemesOf parsed)
              refine .inr (.inl ⟨reference, member, declaration, found, begins, ?_⟩)
              simp only [answer, located, Option.map_some, Position.ofCoordinate_toCoordinate]

theorem exists_program {text : String} {position : Position}
    (accepted : ∀ error, Document.declarationAt text position ≠ .error (.parse error)) :
    ∃ program, (parse text).1 = .ok program := by
  cases result : (parse text).1 with
  | error cause => exact absurd (declarationAt_of_error result position) (accepted cause)
  | ok program => exact ⟨program, rfl⟩

theorem declarationAt_eq_parse_iff {text : String} {position : Position} {error : ParseError} :
    Document.declarationAt text position = .error (.parse error) ↔
      (parse text).1 = .error error := by
  constructor
  · intro answer
    cases result : (parse text).1 with
    | error cause =>
        cases answer.symm.trans (declarationAt_of_error result position)
        rfl
    | ok program =>
        rcases declarationAt_cases result position with
          nothing | ⟨_, _, _, _, _, found⟩ | ⟨_, _, _, missing⟩
        · cases answer.symm.trans nothing
        · cases answer.symm.trans found
        · cases answer.symm.trans missing
  · intro failed
    exact declarationAt_of_error failed position

/-- What is found begins with an identifier that declares the name at the position. -/
theorem of_declarationAt_eq_some {text : String} {position place : Position}
    (answer : Document.declarationAt text position = .ok (some place)) :
    ∃ program, (parse text).1 = .ok program ∧ ∃ use declaration : Ident,
      use.BeginsAt text position ∧ declaration.BeginsAt text place ∧
        declaration.name = use.name ∧ program.Declares declaration := by
  have accepted : ∀ error, Document.declarationAt text position ≠ .error (.parse error) := by
    simp [answer]
  obtain ⟨program, parsed⟩ := exists_program accepted
  refine ⟨program, parsed, ?_⟩
  rcases declarationAt_cases parsed position with
    nothing | ⟨reference, member, declaration, declared, begins, found⟩ | ⟨_, _, _, missing⟩
  · cases answer.symm.trans nothing
  · cases answer.symm.trans found
    obtain ⟨same, declares⟩ := Reference.of_declaration?_eq_some member declared
    have inside := declares.mem_lexemesOf parsed
    exact ⟨reference.name, declaration, begins, ⟨inside, rfl⟩, same, declares⟩
  · cases answer.symm.trans missing

/-- A name that is not in scope is the one at the position, and no contract has it. -/
theorem of_declarationAt_eq_notInScope {text : String} {position : Position} {name : String}
    (answer : Document.declarationAt text position = .error (.notInScope name)) :
    ∃ program, (parse text).1 = .ok program ∧
      (∃ use : Ident, use.BeginsAt text position ∧ use.name = name) ∧
        ∀ contract ∈ program.contracts, contract.name.name ≠ name := by
  have accepted : ∀ error, Document.declarationAt text position ≠ .error (.parse error) := by
    simp [answer]
  obtain ⟨program, parsed⟩ := exists_program accepted
  refine ⟨program, parsed, ?_⟩
  rcases declarationAt_cases parsed position with
    nothing | ⟨_, _, _, _, _, found⟩ | ⟨use, begins, noContract, missing⟩
  · cases answer.symm.trans nothing
  · cases answer.symm.trans found
  · cases answer.symm.trans missing
    exact ⟨⟨use, begins, rfl⟩, noContract⟩

theorem declarationAt_eq_none {text : String} {program : Program}
    (parsed : (parse text).1 = .ok program) {position : Position}
    (away : ∀ name : Ident, ¬ name.BeginsAt text position) :
    Document.declarationAt text position = .ok none := by
  rcases declarationAt_cases parsed position with
    nothing | ⟨reference, _, _, _, begins, _⟩ | ⟨use, begins, _⟩
  · exact nothing
  · exact absurd begins (away reference.name)
  · exact absurd begins (away use)

theorem isSome_coordinate? {text : String} {program : Program}
    (parsed : (parse text).1 = .ok program) {target declared : Nat}
    (answer : program.declarationAt target = .ok declared) :
    ((parse text).2.coordinate? declared).isSome = true := by
  have answers := Program.answers_declarationAt parsed target
  rw [answer] at answers
  cases answers with
  | @declared reference declaration member here found =>
      obtain ⟨_, declares⟩ := Reference.of_declaration?_eq_some member found
      rw [index_of_parse parsed, LineIndex.coordinate?_ofText (declares.mem_lexemesOf parsed)]
      rfl

/-- The positions that a text answers with belong to identifiers that are there. -/
structure Sound (text : String) (position : Position)
    (answer : Except LookupError (Option Position)) : Prop where
  /-- The text is refused exactly if reading it fails, with the same error. -/
  refused : ∀ error, answer = .error (.parse error) ↔ (parse text).1 = .error error
  /-- What is found declares the name at the position. -/
  found : ∀ place, answer = .ok (some place) →
    ∃ program, (parse text).1 = .ok program ∧ ∃ use declaration : Ident,
      use.BeginsAt text position ∧ declaration.BeginsAt text place ∧
        declaration.name = use.name ∧ program.Declares declaration
  /-- What is not in scope is the name at the position, and no contract has it. -/
  missing : ∀ name, answer = .error (.notInScope name) →
    ∃ program, (parse text).1 = .ok program ∧
      (∃ use : Ident, use.BeginsAt text position ∧ use.name = name) ∧
        ∀ contract ∈ program.contracts, contract.name.name ≠ name
  /-- Where no identifier begins, nothing is found. -/
  elsewhere : ∀ program, (parse text).1 = .ok program →
    (∀ name : Ident, ¬ name.BeginsAt text position) → answer = .ok none
  /-- An offset at which no name is asked for is no error. -/
  unknown : ∀ program target, (parse text).1 = .ok program →
    (parse text).2.offset? position.toCoordinate = some target →
      program.declarationAt target = .error .unknownPosition → answer = .ok none
  /-- There are no other answers. -/
  otherwise : ∀ program, (parse text).1 = .ok program →
    (∀ place, answer ≠ .ok (some place)) → (∀ name, answer ≠ .error (.notInScope name)) →
      answer = .ok none
  /-- A declaration has a place. -/
  located : ∀ program target declared, (parse text).1 = .ok program →
    program.declarationAt target = .ok declared →
      ((parse text).2.coordinate? declared).isSome = true

/-- Every answer about a document is sound. -/
theorem sound_declarationAt (text : String) (position : Position) :
    Sound text position (Document.declarationAt text position) where
  refused _ := declarationAt_eq_parse_iff
  found _ := of_declarationAt_eq_some
  missing _ := of_declarationAt_eq_notInScope
  elsewhere _ parsed := declarationAt_eq_none parsed
  unknown := by
    intro program target parsed standing nothing
    rw [index_of_parse parsed] at standing
    simp only [declarationAt_of_ok parsed, standing, nothing]
  otherwise := by
    intro program parsed notFound notMissing
    rcases declarationAt_cases parsed position with
      nothing | ⟨_, _, _, _, _, found⟩ | ⟨_, _, _, missing⟩
    · exact nothing
    · exact absurd found (notFound _)
    · exact absurd missing (notMissing _)
  located _ _ _ parsed := isSome_coordinate? parsed

end Document

end ContractLens
