import ContractLens.Proofs.Declaration.Declared

/-!
# Bodies that keep to themselves

A name in a body is answered by what the body can see: the names of the contracts, those
of the members of its contract, what the state variables assign, and what the body itself
assigns.  The other bodies, the members of other contracts and the bases of any contract
are walked with the same scopes in hand, but leave nothing behind in them.  So two programs
that differ only there give the same answer for the name.
-/

namespace ContractLens

theorem Walk.fst_inOrder_use_of_missed {target : Nat} {names : List Ident}
    (missed : ∀ name ∈ names, name.pos ≠ target) (scope : Scope) :
    (inOrder (names.map (use target)) scope).1 = none := by
  induction names with
  | nil => rfl
  | cons name names ih =>
      obtain ⟨here, behind⟩ := List.forall_mem_cons.mp missed
      rw [List.map_cons, inOrder_cons, fst_andThen, snd_use, ih behind, use, if_neg here]
      rfl

/-- In front of the bodies there are no names at the target, so only the bodies count. -/
theorem Contract.fst_walkWhole_of_missed {target : Nat} {contract : Contract}
    (bases : ∀ base ∈ contract.bases, base.pos ≠ target)
    (initial : ∀ occurrence ∈ contract.initialOccurrences, occurrence.name.pos ≠ target)
    (scope : Scope) :
    (contract.walkWhole target scope).1 =
      (contract.walkFunctions target (contract.bodyScope scope)).1 := by
  rw [walkWhole, Walk.fst_andThen, Walk.fst_inOrder_use_of_missed bases, Option.none_or,
    snd_walkBases, Walk.fst_nested, walk_push,
    Walk.andThen_of_eq_none (walkAlong_of_missed initial _)]
  rfl

/-! ## Names that stand in one body -/

namespace Program

/-- The names at an offset that can be asked for all stand in one body. -/
structure ConfinedTo (program : Program) (target : Nat) (contract : Contract)
    (function : ContractFunction) : Prop where
  inside : contract ∈ program.contracts
  isFunction : function ∈ contract.functions
  alone : ∀ reference ∈ program.references, reference.name.pos = target →
    reference.site = .body contract function

variable {program : Program} {target : Nat} {contract : Contract} {function : ContractFunction}

/-- If all names stand at different offsets, that of a name in a body is confined to it. -/
theorem ConfinedTo.of_nodup
    (distinct : (program.references.map fun reference => reference.name.pos).Nodup)
    (inside : contract ∈ program.contracts) (isFunction : function ∈ contract.functions)
    (occurs : ∃ occurrence ∈ function.occurrences, occurrence.name.pos = target) :
    program.ConfinedTo target contract function where
  inside := inside
  isFunction := isFunction
  alone := by
    obtain ⟨occurrence, member, rfl⟩ := occurs
    intro reference standing here
    have inBody : (⟨.body contract function, occurrence.name⟩ : Reference) ∈
        program.references :=
      Contract.references_subset inside (contract.body_mem_references isFunction member)
    rw [List.inj_on_of_nodup_map distinct standing inBody here]

namespace ConfinedTo

theorem fst_walkWhole (confined : program.ConfinedTo target contract function)
    {other : Contract} (inside : other ∈ program.contracts) (scope : Scope) :
    (other.walkWhole target scope).1 =
      (other.walkFunctions target (other.bodyScope scope)).1 := by
  apply Contract.fst_walkWhole_of_missed
  · intro base member here
    have standing := Contract.references_subset inside (other.base_mem_references member)
    cases confined.alone _ standing here
  · intro occurrence member here
    have standing := Contract.references_subset inside (other.initialiser_mem_references member)
    cases confined.alone _ standing here

theorem eq_or_missed (confined : program.ConfinedTo target contract function)
    {other : Contract} {body : ContractFunction} (inside : other ∈ program.contracts)
    (isFunction : body ∈ other.functions) :
    (other = contract ∧ body = function) ∨
      ∀ occurrence ∈ body.occurrences, occurrence.name.pos ≠ target := by
  by_cases occurs : ∃ occurrence ∈ body.occurrences, occurrence.name.pos = target
  · obtain ⟨occurrence, member, here⟩ := occurs
    have standing :=
      Contract.references_subset inside (other.body_mem_references isFunction member)
    cases confined.alone _ standing here
    exact .inl ⟨rfl, rfl⟩
  · exact .inr fun occurrence member here => occurs ⟨occurrence, member, here⟩

/-- What is found is found in the body, by a walk that has the scope in front of it in hand. -/
theorem fst_walk (confined : program.ConfinedTo target contract function) :
    (program.walk target .root).1 = (walkAlong target function.occurrences
      (contract.bodyScope (globalScope program.contracts)).push).1 := by
  have contracts : ∀ other ∈ program.contracts, other = contract ∨
      (other.walkWhole target (globalScope program.contracts)).1 = none := by
    intro other inside
    by_cases same : other = contract
    · exact .inl same
    right
    rw [confined.fst_walkWhole inside, Contract.fst_walkFunctions, List.findSome?_eq_none_iff]
    intro body isFunction
    rcases confined.eq_or_missed inside isFunction with ⟨isContract, _⟩ | missed
    · exact absurd isContract same
    · rw [walkAlong_of_missed missed]
  have bodies : ∀ body ∈ contract.functions, body = function ∨ (Walk.nested (body.walk target)
      (contract.bodyScope (globalScope program.contracts))).1 = none := by
    intro body isFunction
    rcases confined.eq_or_missed confined.inside isFunction with ⟨_, isBody⟩ | missed
    · exact .inl isBody
    · rw [Walk.fst_nested, body.walk_eq, walkAlong_of_missed missed]
      exact .inr rfl
  -- Contracts and bodies give the scope back as they got it, so only one of each counts.
  rw [walk_root, Walk.fst_inOrder_map_of_only (fun other => other.snd_walkWhole target _)
    confined.inside contracts, confined.fst_walkWhole confined.inside, Contract.walkFunctions,
    Walk.fst_inOrder_map_of_only (fun body => body.snd_nested_walk target _)
    confined.isFunction bodies, Walk.fst_nested, function.walk_eq]

end ConfinedTo

/-! ## What a body can see -/

/-- Around a body two programs are the same in all that the body can see. -/
structure SameAround (program other : Program) (contract otherContract : Contract)
    (function otherFunction : ContractFunction) : Prop where
  /-- The contracts have the same names at the same offsets. -/
  contracts : other.contracts.map Contract.name = program.contracts.map Contract.name
  /-- The contracts of the body take the same place among them. -/
  isContract : ∃ number : Nat, program.contracts[number]? = some contract ∧
    other.contracts[number]? = some otherContract
  stateVariables : otherContract.stateVariables = contract.stateVariables
  /-- Their functions have the same names at the same offsets. -/
  functions : otherContract.functions.map ContractFunction.name =
    contract.functions.map ContractFunction.name
  /-- The functions of the body take the same place among them. -/
  isFunction : ∃ number : Nat, contract.functions[number]? = some function ∧
    otherContract.functions[number]? = some otherFunction
  body : otherFunction.body = function.body

namespace SameAround

variable {other : Program} {otherContract : Contract} {otherFunction : ContractFunction}

theorem globalScope_eq
    (same : SameAround program other contract otherContract function otherFunction) :
    globalScope other.contracts = globalScope program.contracts := by
  rw [globalScope, globalScope, same.contracts]

theorem bodyScope_eq
    (same : SameAround program other contract otherContract function otherFunction)
    (scope : Scope) : otherContract.bodyScope scope = contract.bodyScope scope := by
  simp only [Contract.bodyScope, Contract.memberScope, Contract.assigned,
    Contract.initialOccurrences, same.stateVariables, same.functions]

theorem occurrences_eq
    (same : SameAround program other contract otherContract function otherFunction) :
    otherFunction.occurrences = function.occurrences := by
  rw [ContractFunction.occurrences, ContractFunction.occurrences, same.body]

end SameAround

/--
A name in a body is answered alike in two programs that are the same around the body, if
the names of the one stand at different offsets and the other has no name there elsewhere.
-/
theorem declarationAt_eq_of_sameAround {other : Program} {otherContract : Contract}
    {otherFunction : ContractFunction}
    (distinct : (program.references.map fun reference => reference.name.pos).Nodup)
    (same : SameAround program other contract otherContract function otherFunction)
    (occurs : ∃ occurrence ∈ function.occurrences, occurrence.name.pos = target)
    (alone : ∀ reference ∈ other.references, reference.name.pos = target →
      reference.site = .body otherContract otherFunction) :
    program.declarationAt target = other.declarationAt target := by
  obtain ⟨_, isContract, isOtherContract⟩ := same.isContract
  obtain ⟨_, isFunction, isOtherFunction⟩ := same.isFunction
  have confined := ConfinedTo.of_nodup distinct (List.mem_of_getElem? isContract)
    (List.mem_of_getElem? isFunction) occurs
  have otherConfined : other.ConfinedTo target otherContract otherFunction :=
    ⟨List.mem_of_getElem? isOtherContract, List.mem_of_getElem? isOtherFunction, alone⟩
  rw [declarationAt, declarationAt, confined.fst_walk, otherConfined.fst_walk,
    same.globalScope_eq, same.bodyScope_eq, same.occurrences_eq]

/-- A name is answered with its own body's assignment, whatever the body in front assigns. -/
theorem declarationAt_eq_assigned_elsewhere :
    ∃ program other,
      (parse "contract A      { function g() {        } function f() { x = 1; x; } }").1 =
        .ok program ∧
      (parse "contract A is B { function g() { x = 1; } function f() { x = 1; x; } }").1 =
        .ok other ∧
      program.declarationAt 64 = other.declarationAt 64 := by
  let assignment (pos : Nat) : Expression :=
    .binary (.ident ⟨"x", pos⟩) .assign (pos + 2) (.literal .integer "1" (pos + 4))
  let silent : ContractFunction := ⟨⟨"g", 27⟩, .pub, []⟩
  let assigning : ContractFunction := ⟨⟨"g", 27⟩, .pub, [assignment 33]⟩
  let function : ContractFunction := ⟨⟨"f", 51⟩, .pub, [assignment 57, .ident ⟨"x", 64⟩]⟩
  let contract : Contract := ⟨⟨"A", 9⟩, [], [], [silent, function]⟩
  let otherContract : Contract := ⟨⟨"A", 9⟩, [⟨"B", 14⟩], [], [assigning, function]⟩
  have nowhere : silent.occurrences = [] := rfl
  have before : assigning.occurrences = [⟨⟨"x", 33⟩, true⟩] := by
    simp [assigning, assignment, ContractFunction.occurrences, Expression.occurrences,
      Operator.assigned?]
  have occurrences : function.occurrences = [⟨⟨"x", 57⟩, true⟩, ⟨⟨"x", 64⟩, false⟩] := by
    simp [function, assignment, ContractFunction.occurrences, Expression.occurrences,
      Operator.assigned?]
  have same : SameAround ⟨none, [], [contract]⟩ ⟨none, [], [otherContract]⟩
      contract otherContract function function :=
    ⟨rfl, ⟨0, rfl, rfl⟩, rfl, rfl, ⟨1, rfl, rfl⟩, rfl⟩
  refine ⟨_, _, ?_, ?_, declarationAt_eq_of_sameAround ?_ same ?_ ?_⟩
  · decide +kernel
  · decide +kernel
  · simp [references, Contract.references, contract, Contract.initialOccurrences, nowhere,
      occurrences]
  · simp [occurrences]
  · simp [references, Contract.references, otherContract, Contract.initialOccurrences, before,
      occurrences]

end Program

end ContractLens
