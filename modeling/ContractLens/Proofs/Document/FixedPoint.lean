import ContractLens.Proofs.Declaration.FixedPoint
import ContractLens.Proofs.Document.Lookup

/-!
# Following a declaration twice

The place that a question about a document is answered with is the place of a
declaration.  A second question that is put there has the same answer, or none if
the place is that of the name of a contract or of a function.
-/

namespace ContractLens.Document

variable {text : String} {program : Program} {name : Ident}

theorem declarationAt_placeAt_of_ok (parsed : (parse text).1 = .ok program)
    (member : name.lexeme ∈ lexemesOf text) {declaration : Ident}
    (declared : declaration.lexeme ∈ lexemesOf text)
    (answer : program.declarationAt name.pos = .ok declaration.pos) :
    Document.declarationAt text (placeAt text.toList name.pos) =
      .ok (some (placeAt text.toList declaration.pos)) := by
  have standing := LineIndex.offset?_ofText.mpr (standsAt_of_mem_lexemesOf member)
  simp only [declarationAt_of_ok parsed, standing, answer, LineIndex.coordinate?_ofText declared,
    Option.map_some, Position.ofCoordinate_toCoordinate]

theorem declarationAt_of_declaresItself (parsed : (parse text).1 = .ok program)
    (declaresItself : program.DeclaresItself name) :
    Document.declarationAt text (placeAt text.toList name.pos) =
      .ok (some (placeAt text.toList name.pos)) := by
  have member := declaresItself.mem_lexemesOf parsed
  have answer : program.declarationAt name.pos = .ok name.pos :=
    (program.answers_declarationAt parsed name.pos).unique parsed declaresItself.answers
  exact declarationAt_placeAt_of_ok parsed member member answer

theorem declarationAt_of_title (parsed : (parse text).1 = .ok program)
    (title : name ∈ program.titles) :
    Document.declarationAt text (placeAt text.toList name.pos) = .ok none := by
  have member := (Program.declares_of_mem_titles title).mem_lexemesOf parsed
  have answer : program.declarationAt name.pos = .error .unknownPosition :=
    (program.answers_declarationAt parsed name.pos).unique parsed
      (program.answers_title parsed title)
  have standing := LineIndex.offset?_ofText.mpr (standsAt_of_mem_lexemesOf member)
  simp only [declarationAt_of_ok parsed, standing, answer]

/--
What is found at the place of an answer is the same place, or nothing if a contract
or a function has its name there.
-/
theorem declarationAt_declaration {position place : Position}
    (answer : Document.declarationAt text position = .ok (some place)) :
    ∃ program, (parse text).1 = .ok program ∧
      (Document.declarationAt text place = .ok (some place) ∨
        Document.declarationAt text place = .ok none) ∧
      (Document.declarationAt text place = .ok none ↔
        ∃ title ∈ program.titles, title.BeginsAt text place) := by
  have accepted : ∀ error, Document.declarationAt text position ≠ .error (.parse error) := by
    simp [answer]
  obtain ⟨program, parsed⟩ := exists_program accepted
  refine ⟨program, parsed, ?_⟩
  have isTitle : (∃ title ∈ program.titles, title.BeginsAt text place) →
      Document.declarationAt text place = .ok none := by
    rintro ⟨title, member, _, rfl⟩
    exact declarationAt_of_title parsed member
  rcases declarationAt_cases parsed position with
    nothing | ⟨reference, standing, declaration, declared, _, found⟩ | ⟨_, _, _, missing⟩
  · cases answer.symm.trans nothing
  · cases answer.symm.trans found
    obtain ⟨_, counts⟩ := Reference.counts_of_declaration? standing declared
    rcases counts.title_or_declaresItself with title | declaresItself
    · have inside := (Program.declares_of_mem_titles title).mem_lexemesOf parsed
      have nothing := declarationAt_of_title parsed title
      exact ⟨.inr nothing, fun _ => ⟨declaration, title, inside, rfl⟩, isTitle⟩
    · have again := declarationAt_of_declaresItself parsed declaresItself
      refine ⟨.inl again, ?_, isTitle⟩
      intro nothing
      cases again.symm.trans nothing
  · cases answer.symm.trans missing

/-- The declaration of a later use in a body is the first assignment, which declares itself. -/
theorem declarationAt_declaration_later_use :
    ∃ text, text = "contract A { function f() { b = 1; b; } }" ∧
      Document.declarationAt text ⟨0, 35⟩ = .ok (some ⟨0, 28⟩) ∧
      ∃ program, (parse text).1 = .ok program ∧
        (Document.declarationAt text ⟨0, 28⟩ = .ok (some ⟨0, 28⟩) ∨
          Document.declarationAt text ⟨0, 28⟩ = .ok none) ∧
        (Document.declarationAt text ⟨0, 28⟩ = .ok none ↔
          ∃ title ∈ program.titles, title.BeginsAt text ⟨0, 28⟩) := by
  let text := "contract A { function f() { b = 1; b; } }"
  let function : ContractFunction :=
    ⟨⟨"f", 22⟩, .pub, [.binary (.ident ⟨"b", 28⟩) .assign 30 (.literal .integer "1" 32),
      .ident ⟨"b", 35⟩]⟩
  have parsed : (parse text).1 = .ok ⟨none, [], [⟨⟨"A", 9⟩, [], [], [function]⟩]⟩ := by
    decide +kernel
  have found : Program.declarationAt ⟨none, [], [⟨⟨"A", 9⟩, [], [], [function]⟩]⟩ 35 =
      .ok 28 := by
    simp [function, Program.declarationAt, Program.walk, Contract.walk, ContractFunction.walk,
      Expression.walk, Operator.declaration, Walk.inOrder, Walk.andThen, Walk.nested, Walk.declare,
      Walk.declareAssigned, Walk.use]
  have use : (Ident.lexeme ⟨"b", 35⟩) ∈ lexemesOf text := by
    decide +kernel
  have assigned : (Ident.lexeme ⟨"b", 28⟩) ∈ lexemesOf text := by
    decide +kernel
  have answer := declarationAt_placeAt_of_ok parsed use assigned found
  have asked : placeAt text.toList 35 = ⟨0, 35⟩ := by
    decide +kernel
  have declared : placeAt text.toList 28 = ⟨0, 28⟩ := by
    decide +kernel
  rw [asked, declared] at answer
  exact ⟨text, rfl, answer, declarationAt_declaration answer⟩

end ContractLens.Document
