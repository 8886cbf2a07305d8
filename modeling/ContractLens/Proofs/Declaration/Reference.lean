import Mathlib.Data.List.Basic
import ContractLens.Proofs.Declaration.Occurrence

/-!
# References and their declarations

A name is asked for where it is used: behind `is`, as the name of a state
variable, in a value or in a body.  What declares it depends on the place alone.
Members of the contract come first, then contracts, then assignments; this is
said here without scopes, and the walk through a program finds just that.
-/

namespace ContractLens

/-- The part of a program in which a name is used. -/
inductive Site where
  | base
  | initialiser (contract : Contract)
  | body (contract : Contract) (function : ContractFunction)

/-- A name that can be asked for, with the part of the program in which it stands. -/
structure Reference where
  site : Site
  name : Ident

def Contract.references (contract : Contract) : List Reference :=
  contract.bases.map (fun base => ⟨.base, base⟩) ++
    (contract.initialOccurrences.map (fun occurrence =>
        ⟨.initialiser contract, occurrence.name⟩) ++
      contract.functions.flatMap fun function =>
        function.occurrences.map fun occurrence =>
          ⟨.body contract function, occurrence.name⟩)

/-- The names in a program that can be asked for. -/
def Program.references (program : Program) : List Reference :=
  program.contracts.flatMap Contract.references

/-! ## Declarations -/

def Contract.assigned (contract : Contract) : List Ident :=
  assignedNames contract.initialOccurrences

def ContractFunction.assigned (function : ContractFunction) : List Ident :=
  assignedNames function.occurrences

/-- The last function of a contract with a name, or else its last state variable. -/
def Contract.member? (contract : Contract) (name : String) : Option Ident :=
  (lastNamed? name (contract.functions.map ContractFunction.name)).or
    (lastNamed? name (contract.stateVariables.map StateVariable.name))

namespace Reference

/--
The declaration of a name.  Behind `is` only contracts count.  Elsewhere members
of the contract go before contracts, and assignments come last: those in state
variables, up to the name if it stands there itself, and those in the same body
up to the name.
-/
def declaration? (contracts : List Contract) (reference : Reference) : Option Ident :=
  let name := reference.name.name
  let global := lastNamed? name (contracts.map Contract.name)
  let upToHere := List.filter fun ident => ident.pos ≤ reference.name.pos
  match reference.site with
  | .base => global
  | .initialiser contract =>
      (contract.member? name).or (global.or (firstNamed? name (upToHere contract.assigned)))
  | .body contract function =>
      (contract.member? name).or (global.or ((firstNamed? name contract.assigned).or
        (firstNamed? name (upToHere function.assigned))))

/-- The answer to the question for a name. -/
def answer (contracts : List Contract) (reference : Reference) : Except ResolutionError Nat :=
  answerFor reference.name.name ((reference.declaration? contracts).map Ident.pos)

/-- The answer for the first of the references that stands at the target. -/
def answerAt? (contracts : List Contract) (target : Nat) (references : List Reference) :
    Option (Except ResolutionError Nat) :=
  (references.find? fun reference => reference.name.pos = target).map (answer contracts)

theorem answerAt?_append (contracts : List Contract) (target : Nat)
    (front back : List Reference) :
    answerAt? contracts target (front ++ back) =
      (answerAt? contracts target front).or (answerAt? contracts target back) := by
  simp [answerAt?, List.find?_append, Option.map_or]

theorem answerAt?_flatMap {Item : Type} (contracts : List Contract) (target : Nat)
    (parts : Item → List Reference) (items : List Item) :
    answerAt? contracts target (items.flatMap parts) =
      items.findSome? fun item => answerAt? contracts target (parts item) := by
  induction items with
  | nil => rfl
  | cons item items ih =>
      rw [List.flatMap_cons, answerAt?_append, ih, List.findSome?_cons]
      cases answerAt? contracts target (parts item) <;> rfl

theorem answerAt?_occurrences {contracts : List Contract} {target : Nat} {site : Site}
    {occurrences : List Occurrence} {scope : Scope} (ascending : Ascending occurrences)
    (known : ∀ name : Ident, name.pos = target →
      (declaration? contracts ⟨site, name⟩).map Ident.pos =
        (scope.lookup? name.name).or ((firstNamed? name.name
          ((assignedNames occurrences).filter fun ident => ident.pos ≤ target)).map Ident.pos)) :
    answerAt? contracts target (occurrences.map fun occurrence => ⟨site, occurrence.name⟩) =
      (walkAlong target occurrences scope).1 := by
  rw [fst_walkAlong ascending, answerAt?, List.find?_map, Option.map_map]
  cases found : occurrences.find? fun occurrence => occurrence.name.pos = target with
  | none => simpa using found
  | some occurrence =>
      have hit : occurrence.name.pos = target := by simpa using List.find?_some found
      have same : (occurrences.find? ((fun reference : Reference =>
          decide (reference.name.pos = target)) ∘ fun occurrence => ⟨site, occurrence.name⟩)) =
            some occurrence := found
      rw [same, Option.map_some, Option.map_some, ← known _ hit]
      rfl

end Reference

/-! ## Walks through contracts -/

/-- The scope in front of the first contract. -/
def globalScope (contracts : List Contract) : Scope :=
  Scope.root.declareAll (contracts.map Contract.name)

theorem lookup?_globalScope (contracts : List Contract) (name : String) :
    (globalScope contracts).lookup? name =
      (lastNamed? name (contracts.map Contract.name)).map Ident.pos := by
  rw [globalScope, Scope.lookup?_declareAll, Scope.lookup?_root, Option.or_none]

def Contract.memberScope (contract : Contract) (scope : Scope) : Scope :=
  (scope.push.declareAll (contract.stateVariables.map StateVariable.name)).declareAll
    (contract.functions.map ContractFunction.name)

theorem Contract.lookup?_memberScope (contract : Contract) (scope : Scope) (name : String) :
    (contract.memberScope scope).lookup? name =
      ((contract.member? name).map Ident.pos).or (scope.lookup? name) := by
  simp only [memberScope, member?, Scope.lookup?_declareAll, Scope.lookup?_push, Option.map_or,
    Option.or_assoc]

def Contract.bodyScope (contract : Contract) (scope : Scope) : Scope :=
  (contract.memberScope scope).assignAll contract.assigned

theorem Contract.lookup?_bodyScope (contract : Contract) (scope : Scope) (name : String) :
    (contract.bodyScope scope).lookup? name =
      ((contract.member? name).map Ident.pos).or ((scope.lookup? name).or
        ((firstNamed? name contract.assigned).map Ident.pos)) := by
  rw [bodyScope, Scope.lookup?_assignAll, lookup?_memberScope, Option.or_assoc]

def Contract.walkFunctions (target : Nat) (contract : Contract) : Walk :=
  .inOrder (contract.functions.map fun function => .nested (function.walk target))

theorem ContractFunction.snd_nested_walk (target : Nat) (function : ContractFunction)
    (scope : Scope) : (Walk.nested (function.walk target) scope).2 = scope := by
  rw [function.walk_eq]
  exact (keepsOuter_walkAlong target function.occurrences).snd_nested scope

theorem Contract.snd_walkFunctions (target : Nat) (contract : Contract) (scope : Scope) :
    (contract.walkFunctions target scope).2 = scope :=
  Walk.snd_inOrder_map_of_keeps contract.functions fun function =>
    function.snd_nested_walk target scope

theorem Contract.fst_walkFunctions (target : Nat) (contract : Contract) (scope : Scope) :
    (contract.walkFunctions target scope).1 = contract.functions.findSome? fun function =>
      (walkAlong target function.occurrences scope.push).1 := by
  rw [walkFunctions, Walk.fst_inOrder_of_keeps, List.findSome?_map]
  · simp only [Function.comp_def, Walk.fst_nested, ContractFunction.walk_eq]
  · intro walk member
    obtain ⟨function, _, rfl⟩ := List.mem_map.mp member
    exact function.snd_nested_walk target scope

/-- Behind the declarations of its members, a contract is a walk along names and bodies. -/
theorem Contract.walk_push (target : Nat) (contract : Contract) (scope : Scope) :
    contract.walk target scope.push =
      (walkAlong target contract.initialOccurrences).andThen (contract.walkFunctions target)
        (contract.memberScope scope) := by
  have initial : Walk.inOrder (contract.stateVariables.map (StateVariable.walk target)) =
      walkAlong target contract.initialOccurrences := by
    rw [initialOccurrences, walkAlong_flatMap, funext (StateVariable.walk_eq target)]
  have variablesDeclared := Walk.inOrder_declare (contract.stateVariables.map StateVariable.name)
    scope.push
  have functionsDeclared := Walk.inOrder_declare (contract.functions.map ContractFunction.name)
    (scope.push.declareAll (contract.stateVariables.map StateVariable.name))
  rw [List.map_map] at variablesDeclared functionsDeclared
  rw [walk, Walk.inOrder_cons, Walk.inOrder_cons, Walk.inOrder_cons, Walk.inOrder_cons,
    Walk.inOrder_nil, Walk.andThen_skip, initial]
  exact (Walk.andThen_of_eq_none variablesDeclared).trans
    (Walk.andThen_of_eq_none functionsDeclared)

theorem Contract.keepsOuter_walk (target : Nat) (contract : Contract) :
    (contract.walk target).KeepsOuter := by
  apply Walk.keepsOuter_inOrder
  intro walk member
  simp only [List.mem_cons, List.not_mem_nil, or_false] at member
  rcases member with rfl | rfl | rfl | rfl
  · apply Walk.keepsOuter_inOrder_map
    intro declaration
    exact Walk.keepsOuter_declare declaration.name
  · apply Walk.keepsOuter_inOrder_map
    intro function
    exact Walk.keepsOuter_declare function.name
  · apply Walk.keepsOuter_inOrder_map
    intro declaration
    rw [declaration.walk_eq]
    exact keepsOuter_walkAlong target declaration.occurrences
  · intro scope
    exact congrArg Scope.outer (contract.snd_walkFunctions target scope)

/-! ## What the walk through a program finds -/

theorem Reference.answerAt?_bases (contracts : List Contract) (target : Nat)
    (bases : List Ident) :
    answerAt? contracts target (bases.map fun base => ⟨.base, base⟩) =
      (Walk.inOrder (bases.map (.use target)) (globalScope contracts)).1 := by
  induction bases with
  | nil => rfl
  | cons base bases ih =>
      rw [List.map_cons, List.map_cons, Walk.inOrder_cons, Walk.fst_andThen, Walk.snd_use, ← ih]
      by_cases hit : base.pos = target
      · have known : answer contracts ⟨.base, base⟩ =
            answerFor base.name ((globalScope contracts).lookup? base.name) := by
          rw [lookup?_globalScope]
          rfl
        simp only [answerAt?, List.find?_cons, hit, decide_true, Option.map_some, known]
        rw [Walk.use, if_pos hit, Option.some_or]
        rfl
      · simp [answerAt?, Walk.use, hit]

theorem Contract.snd_walkBases (target : Nat) (contract : Contract) (scope : Scope) :
    (Walk.inOrder (contract.bases.map (.use target)) scope).2 = scope :=
  Walk.snd_inOrder_map_of_keeps contract.bases fun base => Walk.snd_use target base scope

/-- The names of a contract stand one behind the other, in the variables and in each body. -/
structure Contract.Ascends (contract : Contract) : Prop where
  initial : Ascending contract.initialOccurrences
  bodies : ∀ function ∈ contract.functions, Ascending function.occurrences

def Contract.walkWhole (target : Nat) (contract : Contract) : Walk :=
  (Walk.inOrder (contract.bases.map (.use target))).andThen (.nested (contract.walk target))

theorem Contract.snd_walkWhole (target : Nat) (contract : Contract) (scope : Scope) :
    (contract.walkWhole target scope).2 = scope := by
  apply Walk.snd_andThen_of_keeps
  · exact contract.snd_walkBases target scope
  · exact (contract.keepsOuter_walk target).snd_nested scope

/-- The walk through one contract answers for the names in it. -/
theorem Contract.answerAt?_references {contract : Contract} (ascends : contract.Ascends)
    (contracts : List Contract) (target : Nat) :
    Reference.answerAt? contracts target contract.references =
      (contract.walkWhole target (globalScope contracts)).1 := by
  have initial : Reference.answerAt? contracts target (contract.initialOccurrences.map
      fun occurrence => ⟨.initialiser contract, occurrence.name⟩) =
        (walkAlong target contract.initialOccurrences
          (contract.memberScope (globalScope contracts))).1 := by
    apply Reference.answerAt?_occurrences ascends.initial
    intro name hit
    rw [lookup?_memberScope, lookup?_globalScope, ← hit, Option.or_assoc, ← Option.map_or,
      ← Option.map_or]
    rfl
  have bodies : Reference.answerAt? contracts target (contract.functions.flatMap
      fun function => function.occurrences.map fun occurrence =>
        ⟨.body contract function, occurrence.name⟩) =
          (contract.walkFunctions target (contract.bodyScope (globalScope contracts))).1 := by
    rw [Reference.answerAt?_flatMap, fst_walkFunctions, ← List.head?_filterMap,
      ← List.head?_filterMap, List.filterMap_congr]
    intro function member
    apply Reference.answerAt?_occurrences (ascends.bodies function member)
    intro name hit
    rw [Scope.lookup?_push, lookup?_bodyScope, lookup?_globalScope, ← hit, Option.or_assoc,
      Option.or_assoc, ← Option.map_or, ← Option.map_or, ← Option.map_or]
    rfl
  rw [references, Reference.answerAt?_append, Reference.answerAt?_append,
    Reference.answerAt?_bases, initial, bodies, walkWhole, Walk.fst_andThen, snd_walkBases,
    Walk.fst_nested, walk_push, Walk.fst_andThen]
  cases found : (walkAlong target contract.initialOccurrences
      (contract.memberScope (globalScope contracts))).1 with
  | some answer => rfl
  | none =>
      rw [walkAlong_of_eq_none ascends.initial found]
      rfl

/-- Behind the declarations of its contracts, a program is a walk through one after the other. -/
theorem Program.walk_root (target : Nat) (program : Program) :
    program.walk target .root =
      Walk.inOrder (program.contracts.map (Contract.walkWhole target))
        (globalScope program.contracts) := by
  have declared := Walk.inOrder_declare (program.contracts.map Contract.name) .root
  rw [List.map_map] at declared
  rw [walk, Walk.inOrder_cons, Walk.inOrder_cons, Walk.inOrder_nil, Walk.andThen_skip]
  exact Walk.andThen_of_eq_none declared

theorem Program.fst_walk_eq_findSome? (target : Nat) (program : Program) :
    (program.walk target .root).1 = program.contracts.findSome? fun contract =>
      (contract.walkWhole target (globalScope program.contracts)).1 := by
  rw [walk_root, Walk.fst_inOrder_of_keeps, List.findSome?_map]
  · rfl
  · intro walk member
    obtain ⟨contract, _, rfl⟩ := List.mem_map.mp member
    exact contract.snd_walkWhole target _

/-- The walk through a program answers for the names in it. -/
theorem Program.fst_walk {program : Program}
    (ascends : ∀ contract ∈ program.contracts, contract.Ascends) (target : Nat) :
    (program.walk target .root).1 =
      Reference.answerAt? program.contracts target program.references := by
  rw [fst_walk_eq_findSome?, references, Reference.answerAt?_flatMap, ← List.head?_filterMap,
    ← List.head?_filterMap, List.filterMap_congr]
  intro contract member
  exact (Contract.answerAt?_references (ascends contract member) program.contracts target).symm

end ContractLens
