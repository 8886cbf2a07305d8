import ContractLens.Proofs.Declaration.Reference
import ContractLens.Proofs.Syntax.Equality
import Mathlib.Data.List.Flatten
import Mathlib.Data.List.Nodup

/-!
# Answers about a program

The names of a program that is read from a text stand at different offsets, and
within a body one behind the other.  So at most one name stands at a target, and
the walk through the program gives just the answer that its place determines.
-/

namespace ContractLens

/-! ## Names stand one behind the other -/

def Occurrence.lexeme (occurrence : Occurrence) : Lexeme :=
  occurrence.name.lexeme

theorem Expression.occurrences_sublist (expression : Expression) :
    (expression.occurrences.map Occurrence.lexeme).Sublist expression.recorded := by
  induction expression with
  | ident name => simp [occurrences, recorded, signs, Occurrence.lexeme]
  | literal kind text pos => simp [occurrences]
  | binary left operator pos right leftIh rightIh =>
      rw [recorded, signs, List.filterMap_append, occurrences, List.map_append]
      refine .append ?_ (.cons _ rightIh)
      cases assigned : operator.assigned? left with
      | none => exact leftIh
      | some name =>
          obtain ⟨rfl, rfl⟩ := Operator.eq_of_assigned? assigned
          simp [signs, Occurrence.lexeme]
  | call callee arguments leftParen rightParen calleeIh argumentsIh =>
      have argumentsFound := List.Sublist.flatMap_right arguments argumentsIh
      simp only [recorded, signs, occurrences, List.map_append, List.map_flatMap,
        List.filterMap_append, List.filterMap_cons, Sign.lexeme?_mark,
        Grammar.filterMap_lexeme?_flatMap, List.append_assoc]
      refine calleeIh.append (.cons _ ?_)
      exact argumentsFound.trans (List.sublist_append_left _ _)
  | index base subscript baseIh subscriptIh =>
      simp only [recorded, signs, occurrences, List.map_append, List.filterMap_append,
        List.filterMap_cons, Sign.lexeme?_bare, List.append_assoc]
      refine baseIh.append (subscriptIh.trans (List.sublist_append_left _ _))
  | selector base member baseIh =>
      simp only [recorded, signs, occurrences, List.map_append, List.filterMap_append]
      refine baseIh.append ?_
      simp [Occurrence.lexeme]
  | paren leftParen inner innerIh =>
      simp only [recorded, signs, occurrences, List.filterMap_append, List.filterMap_cons,
        Sign.lexeme?_mark]
      exact .cons _ (innerIh.trans (List.sublist_append_left _ _))

theorem StateVariable.occurrences_sublist (declaration : StateVariable) :
    (declaration.occurrences.map Occurrence.lexeme).Sublist declaration.recorded :=
  .cons _ (.cons_cons _ declaration.value.occurrences_sublist)

theorem ContractFunction.occurrences_sublist (function : ContractFunction) :
    (function.occurrences.map Occurrence.lexeme).Sublist function.recorded := by
  rw [occurrences, List.map_flatMap]
  exact .cons _ (.flatMap_right _ fun expression _ => expression.occurrences_sublist)

theorem Contract.initialOccurrences_sublist (contract : Contract) :
    (contract.initialOccurrences.map Occurrence.lexeme).Sublist
      (contract.stateVariables.flatMap StateVariable.recorded) := by
  rw [initialOccurrences, List.map_flatMap]
  exact .flatMap_right _ fun declaration _ => declaration.occurrences_sublist

theorem Contract.references_sublist (contract : Contract) :
    (contract.references.map fun reference => reference.name.lexeme).Sublist
      contract.recorded := by
  have bases : (contract.bases.map Ident.lexeme).Sublist contract.heading :=
    List.sublist_cons_self _ _
  have bodies : (contract.functions.flatMap
      fun function => function.occurrences.map Occurrence.lexeme).Sublist
        (contract.functions.flatMap ContractFunction.recorded) :=
    .flatMap_right _ fun function _ => function.occurrences_sublist
  have whole := (bases.append contract.initialOccurrences_sublist).append bodies
  rw [List.append_assoc] at whole
  simp only [references, List.map_append, List.map_map, List.map_flatMap]
  exact whole

/-- Lexemes that stand one behind the other leave the occurrences in order. -/
theorem ascending_of_sublist {occurrences : List Occurrence} {lexemes : List Lexeme}
    (inside : (occurrences.map Occurrence.lexeme).Sublist lexemes)
    (ordered : lexemes.Pairwise (·.pos < ·.pos)) : Ascending occurrences := by
  have places := List.pairwise_map.mp (ordered.sublist inside)
  exact places

theorem Contract.ascends_of_recordedIn {contract : Contract} {lexemes : List Lexeme}
    (found : contract.RecordedIn lexemes) (ordered : lexemes.Pairwise (·.pos < ·.pos)) :
    contract.Ascends := by
  constructor
  · have inside := contract.initialOccurrences_sublist
    refine ascending_of_sublist ?_ ordered
    exact (inside.trans (List.sublist_append_right _ _)).trans found.stateVariables
  · intro function member
    have inside : function.recorded.Sublist
        (contract.functions.flatMap ContractFunction.recorded) := by
      rw [List.flatMap_def]
      exact List.sublist_flatten_of_mem (List.mem_map_of_mem member)
    refine ascending_of_sublist function.occurrences_sublist (ordered.sublist ?_)
    exact (inside.trans (List.sublist_append_right _ _)).trans found.functions

theorem references_nodup {program : Program} {lexemes : List Lexeme}
    (found : ContractsRecordedIn program.contracts lexemes)
    (ordered : lexemes.Pairwise (·.pos < ·.pos)) :
    (program.references.map fun reference => reference.name.pos).Nodup := by
  have within : (program.references.map fun reference => reference.name.lexeme).Sublist
      (program.contracts.flatMap Contract.recorded) := by
    rw [Program.references, List.map_flatMap]
    exact .flatMap_right _ fun contract _ => contract.references_sublist
  have places := (within.map Lexeme.pos).nodup (found.nodup ordered)
  rwa [List.map_map] at places

/-! ## Answers -/

/-- What the question for the name at an offset is answered with. -/
inductive Program.Answers (program : Program) (target : Nat) :
    Except ResolutionError Nat → Prop where
  | unknown (away : ∀ reference ∈ program.references, reference.name.pos ≠ target) :
      program.Answers target (.error .unknownPosition)
  | declared {reference : Reference} {declaration : Ident}
      (member : reference ∈ program.references) (here : reference.name.pos = target)
      (found : reference.declaration? program.contracts = some declaration) :
      program.Answers target (.ok declaration.pos)
  | undeclared {reference : Reference} (member : reference ∈ program.references)
      (here : reference.name.pos = target)
      (missing : reference.declaration? program.contracts = none) :
      program.Answers target (.error (.notInScope reference.name.name))

theorem Program.declarationAt_eq {program : Program}
    (ascends : ∀ contract ∈ program.contracts, contract.Ascends) (target : Nat) :
    program.declarationAt target =
      (Reference.answerAt? program.contracts target program.references).getD
        (.error .unknownPosition) := by
  rw [declarationAt, fst_walk ascends]

/-- A question about a program that is read from a text is answered by the walk. -/
theorem Program.answers_declarationAt {text : String} {program : Program}
    (parsed : (parse text).1 = .ok program) (target : Nat) :
    program.Answers target (program.declarationAt target) := by
  have found := recorded_of_parse parsed
  have ordered := pairwise_pos_lexemesFrom 0 text.toList
  rw [declarationAt_eq fun contract member =>
    Contract.ascends_of_recordedIn (found.each contract member) ordered]
  unfold Reference.answerAt?
  cases standing : program.references.find? fun reference => reference.name.pos = target with
  | none => exact .unknown (by simpa using standing)
  | some reference =>
      have member := List.mem_of_find?_eq_some standing
      have here : reference.name.pos = target := by simpa using List.find?_some standing
      simp only [Option.map_some, Option.getD_some, Reference.answer]
      cases declared : reference.declaration? program.contracts with
      | none => exact .undeclared member here declared
      | some declaration => exact .declared member here declared

theorem Program.Answers.unique {text : String} {program : Program}
    (parsed : (parse text).1 = .ok program) {target : Nat}
    {first second : Except ResolutionError Nat} (one : program.Answers target first)
    (other : program.Answers target second) : first = second := by
  have distinct := references_nodup (recorded_of_parse parsed)
    (pairwise_pos_lexemesFrom 0 text.toList)
  have same : ∀ {left right : Reference}, left ∈ program.references →
      right ∈ program.references → left.name.pos = target → right.name.pos = target →
        left = right := by
    intro left right inLeft inRight here there
    exact List.inj_on_of_nodup_map distinct inLeft inRight (here.trans there.symm)
  cases one with
  | unknown away =>
      cases other with
      | unknown _ => rfl
      | declared member here _ => exact absurd here (away _ member)
      | undeclared member here _ => exact absurd here (away _ member)
  | declared member here found =>
      cases other with
      | unknown away => exact absurd here (away _ member)
      | declared inside there other =>
          cases same member inside here there
          rw [Option.some.inj (found.symm.trans other)]
      | undeclared inside there missing =>
          cases same member inside here there
          exact absurd (found.symm.trans missing) (by simp)
  | undeclared member here missing =>
      cases other with
      | unknown away => exact absurd here (away _ member)
      | declared inside there found =>
          cases same member inside here there
          exact absurd (found.symm.trans missing) (by simp)
      | undeclared inside there _ => rw [same member inside here there]

/--
What is found for an offset of a program that is read from a text is the answer
that the place alone determines, and no other.
-/
theorem Program.declarationAt_eq_iff {text : String} {program : Program}
    (parsed : (parse text).1 = .ok program) (target : Nat)
    (answer : Except ResolutionError Nat) :
    program.declarationAt target = answer ↔ program.Answers target answer := by
  constructor
  · rintro rfl
    exact answers_declarationAt parsed target
  · intro determined
    exact (answers_declarationAt parsed target).unique parsed determined

/-- The second use of a name is answered with its first assignment in the same body. -/
theorem Program.declarationAt_later_use :
    ∃ program, (parse "contract A { function f() { b = 1; b; } }").1 = .ok program ∧
      program.declarationAt 35 = .ok 28 := by
  let function : ContractFunction :=
    ⟨⟨"f", 22⟩, .pub, [.binary (.ident ⟨"b", 28⟩) .assign 30 (.literal .integer "1" 32),
      .ident ⟨"b", 35⟩]⟩
  let contract : Contract := ⟨⟨"A", 9⟩, [], [], [function]⟩
  have parsed : (parse "contract A { function f() { b = 1; b; } }").1 =
      .ok ⟨none, [], [contract]⟩ := by
    decide +kernel
  have occurrences : function.occurrences = [⟨⟨"b", 28⟩, true⟩, ⟨⟨"b", 35⟩, false⟩] := by
    simp [function, ContractFunction.occurrences, Expression.occurrences, Operator.assigned?]
  have standing : (⟨.body contract function, ⟨"b", 35⟩⟩ : Reference) ∈
      Program.references ⟨none, [], [contract]⟩ := by
    simp [references, Contract.references, contract, occurrences]
  have found : Reference.declaration? [contract] ⟨.body contract function, ⟨"b", 35⟩⟩ =
      some ⟨"b", 28⟩ := by
    simp only [Reference.declaration?, ContractFunction.assigned, occurrences]
    decide
  exact ⟨_, parsed, (declarationAt_eq_iff parsed 35 _).mpr (.declared standing rfl found)⟩

end ContractLens
