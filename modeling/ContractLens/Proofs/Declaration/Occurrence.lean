import ContractLens.Proofs.Declaration.Walk
import ContractLens.Proofs.Grammar.Record

/-!
# Occurrences of names

The names of an expression in the order in which they are written, each with the
information whether it is all that stands left of an assignment.  A walk through
an expression is a walk along its occurrences, so what it finds can be said
without the nesting of the expression.
-/

namespace ContractLens

/-- A name where it is used; it is assigned if it is all that stands left of `=`. -/
structure Occurrence where
  name : Ident
  assigned : Bool
  deriving DecidableEq, Repr

/-- The walk past an occurrence, which declares the name first if it is assigned. -/
def Occurrence.walk (target : Nat) (occurrence : Occurrence) : Walk :=
  (if occurrence.assigned then Walk.declareAssigned occurrence.name else Walk.skip).andThen
    (.use target occurrence.name)

/-- The names assigned to among the occurrences. -/
def assignedNames (occurrences : List Occurrence) : List Ident :=
  (occurrences.filter Occurrence.assigned).map Occurrence.name

@[simp] theorem assignedNames_append (front back : List Occurrence) :
    assignedNames (front ++ back) = assignedNames front ++ assignedNames back := by
  simp [assignedNames]

theorem mem_assignedNames {occurrences : List Occurrence} {name : Ident} :
    name ∈ assignedNames occurrences ↔
      ∃ occurrence ∈ occurrences, occurrence.assigned = true ∧ occurrence.name = name := by
  simp [assignedNames, and_assoc]

/-! ## Occurrences of a tree -/

/-- The name that is all that stands left of an assignment. -/
def Operator.assigned? : Operator → Expression → Option Ident
  | assign, .ident name => some name
  | _, _ => none

/-- The occurrences of names in an expression from left to right. -/
def Expression.occurrences : Expression → List Occurrence
  | ident name => [⟨name, false⟩]
  | literal _ _ _ => []
  | binary left operator _ right =>
      (match operator.assigned? left with
        | some name => [⟨name, true⟩]
        | none => left.occurrences) ++ right.occurrences
  | call callee arguments _ _ => callee.occurrences ++ arguments.flatMap occurrences
  | index base subscript => base.occurrences ++ subscript.occurrences
  | selector base member => base.occurrences ++ [⟨member, false⟩]
  | paren _ inner => inner.occurrences

/-- The occurrences of names in a state variable: its own name and those of its value. -/
def StateVariable.occurrences (declaration : StateVariable) : List Occurrence :=
  ⟨declaration.name, false⟩ :: declaration.value.occurrences

def ContractFunction.occurrences (function : ContractFunction) : List Occurrence :=
  function.body.flatMap Expression.occurrences

def Contract.initialOccurrences (contract : Contract) : List Occurrence :=
  contract.stateVariables.flatMap StateVariable.occurrences

/-! ## Walks along occurrences -/

/-- The walk along occurrences. -/
def walkAlong (target : Nat) (occurrences : List Occurrence) : Walk :=
  .inOrder (occurrences.map (Occurrence.walk target))

theorem walkAlong_append (target : Nat) (front back : List Occurrence) :
    walkAlong target (front ++ back) =
      (walkAlong target front).andThen (walkAlong target back) := by
  simp [walkAlong, Walk.inOrder_append]

theorem walkAlong_flatMap {Item : Type} (target : Nat) (parts : Item → List Occurrence)
    (items : List Item) :
    walkAlong target (items.flatMap parts) =
      .inOrder (items.map fun item => walkAlong target (parts item)) :=
  Walk.inOrder_flatMap parts (Occurrence.walk target) items

theorem walkAlong_single (target : Nat) (occurrence : Occurrence) :
    walkAlong target [occurrence] = occurrence.walk target :=
  Walk.andThen_skip _

theorem Operator.eq_of_assigned? {operator : Operator} {left : Expression} {name : Ident}
    (assigned : operator.assigned? left = some name) :
    operator = .assign ∧ left = .ident name := by
  unfold assigned? at assigned
  split at assigned
  · exact ⟨rfl, by simpa using assigned⟩
  · cases assigned

theorem Operator.declaration_of_assigned? {operator : Operator} {left : Expression}
    (other : operator.assigned? left = none) : operator.declaration left = .skip := by
  unfold declaration
  split
  · cases other
  · rfl

/-- An operator with its left side is one assigned occurrence, or those of the left side. -/
theorem walkAlong_left (target : Nat) (left : Expression) (operator : Operator)
    (leftIh : left.walk target = walkAlong target left.occurrences) :
    (operator.declaration left).andThen (left.walk target) =
      walkAlong target (match operator.assigned? left with
        | some name => [⟨name, true⟩]
        | none => left.occurrences) := by
  cases assigned : operator.assigned? left with
  | some name =>
      obtain ⟨rfl, rfl⟩ := Operator.eq_of_assigned? assigned
      rw [Expression.walk]
      exact (walkAlong_single target ⟨name, true⟩).symm
  | none => rw [Operator.declaration_of_assigned? assigned, Walk.skip_andThen, leftIh]

/-- The walk through an expression is the walk along its occurrences. -/
theorem Expression.walk_eq (target : Nat) (expression : Expression) :
    expression.walk target = walkAlong target expression.occurrences := by
  induction expression with
  | ident name =>
      rw [occurrences, walkAlong_single, walk]
      rfl
  | literal kind text pos =>
      rw [occurrences, walk]
      rfl
  | binary left operator pos right leftIh rightIh =>
      rw [occurrences, walk, walkAlong_append, ← walkAlong_left target left operator leftIh,
        ← rightIh, Walk.andThen_assoc]
  | call callee arguments leftParen rightParen calleeIh argumentsIh =>
      rw [occurrences, walk, walkAlong_append, walkAlong_flatMap, calleeIh,
        List.map_congr_left argumentsIh]
  | index base subscript baseIh subscriptIh =>
      rw [occurrences, walk, walkAlong_append, baseIh, subscriptIh]
  | selector base member baseIh =>
      rw [occurrences, walk, walkAlong_append, walkAlong_single, baseIh]
      rfl
  | paren leftParen inner innerIh =>
      rw [occurrences, walk, innerIh]

theorem StateVariable.walk_eq (target : Nat) (declaration : StateVariable) :
    declaration.walk target = walkAlong target declaration.occurrences := by
  have named : walkAlong target [⟨declaration.name, false⟩] = .use target declaration.name :=
    walkAlong_single target _
  rw [walk, Expression.walk_eq, ← named, ← walkAlong_append]
  rfl

theorem ContractFunction.walk_eq (target : Nat) (function : ContractFunction) :
    function.walk target = walkAlong target function.occurrences := by
  rw [occurrences, walkAlong_flatMap, walk, funext (Expression.walk_eq target)]

theorem keepsOuter_walkAlong (target : Nat) (occurrences : List Occurrence) :
    (walkAlong target occurrences).KeepsOuter := by
  apply Walk.keepsOuter_inOrder_map
  intro occurrence
  refine Walk.KeepsOuter.andThen ?_ (Walk.keepsOuter_use target occurrence.name)
  split
  · exact Walk.keepsOuter_declareAssigned occurrence.name
  · exact Walk.keepsOuter_skip

/-! ## What is found along occurrences -/

/-- The occurrences stand one behind the other. -/
abbrev Ascending (occurrences : List Occurrence) : Prop :=
  occurrences.Pairwise fun first second => first.name.pos < second.name.pos

/-- The answer for a name that is used, by what is known of it. -/
def answerFor (name : String) : Option Nat → Except ResolutionError Nat
  | some pos => .ok pos
  | none => .error (.notInScope name)

theorem Occurrence.walk_eq (target : Nat) (occurrence : Occurrence) (scope : Scope) :
    occurrence.walk target scope =
      Walk.use target occurrence.name (scope.assignAll (assignedNames [occurrence])) := by
  rcases occurrence with ⟨name, assigned⟩
  cases assigned with
  | false => rfl
  | true => exact Walk.andThen_of_eq_none (Walk.declareAssigned_eq name scope)

theorem walkAlong_of_missed {target : Nat} {occurrences : List Occurrence}
    (missed : ∀ occurrence ∈ occurrences, occurrence.name.pos ≠ target) (scope : Scope) :
    walkAlong target occurrences scope =
      (none, scope.assignAll (assignedNames occurrences)) := by
  induction occurrences generalizing scope with
  | nil => rfl
  | cons occurrence occurrences ih =>
      have first : occurrence.walk target scope =
          (none, scope.assignAll (assignedNames [occurrence])) := by
        rw [occurrence.walk_eq, Walk.use, if_neg (missed occurrence (by simp))]
      have others := ih fun other member => missed other (by simp [member])
      have whole : assignedNames (occurrence :: occurrences) =
          assignedNames [occurrence] ++ assignedNames occurrences :=
        assignedNames_append [occurrence] occurrences
      rw [whole, Scope.assignAll, List.foldl_append]
      exact (Walk.andThen_of_eq_none first).trans (others _)

theorem assignedNames_upTo {front back : List Occurrence} {occurrence : Occurrence}
    (ascending : Ascending (front ++ occurrence :: back)) :
    (assignedNames (front ++ occurrence :: back)).filter
        (fun name => name.pos ≤ occurrence.name.pos) =
      assignedNames (front ++ [occurrence]) := by
  rw [Ascending, List.pairwise_append, List.pairwise_cons] at ascending
  obtain ⟨_, ⟨behind, _⟩, before⟩ := ascending
  have kept : (assignedNames (front ++ [occurrence])).filter
      (fun name => name.pos ≤ occurrence.name.pos) = assignedNames (front ++ [occurrence]) := by
    rw [List.filter_eq_self]
    intro name assigned
    obtain ⟨other, member, _, rfl⟩ := mem_assignedNames.mp assigned
    rcases List.mem_append.mp member with inFront | isLast
    · simpa using Nat.le_of_lt (before other inFront occurrence (by simp))
    · simp [List.mem_singleton.mp isLast]
  have dropped : (assignedNames back).filter
      (fun name => name.pos ≤ occurrence.name.pos) = [] := by
    rw [List.filter_eq_nil_iff]
    intro name assigned
    obtain ⟨other, member, _, rfl⟩ := mem_assignedNames.mp assigned
    simpa using behind other member
  rw [List.append_cons, assignedNames_append, List.filter_append, kept, dropped,
    List.append_nil]

/--
A walk along occurrences finds what is known of the name at the target; what is
not known there counts as declared where it is first assigned, up to the target.
-/
theorem fst_walkAlong {target : Nat} {occurrences : List Occurrence}
    (ascending : Ascending occurrences) (scope : Scope) :
    (walkAlong target occurrences scope).1 =
      (occurrences.find? fun occurrence => occurrence.name.pos = target).map fun occurrence =>
        answerFor occurrence.name.name ((scope.lookup? occurrence.name.name).or
          ((firstNamed? occurrence.name.name ((assignedNames occurrences).filter
            fun name => name.pos ≤ target)).map Ident.pos)) := by
  cases found : occurrences.find? fun occurrence => occurrence.name.pos = target with
  | none =>
      rw [walkAlong_of_missed (by simpa using found)]
      rfl
  | some occurrence =>
      obtain ⟨hit, front, back, rfl, missed⟩ := List.find?_eq_some_iff_append.mp found
      have hit : occurrence.name.pos = target := by simpa using hit
      subst hit
      have before := walkAlong_of_missed (by simpa using missed) scope
      have here : (occurrence.walk occurrence.name.pos
          (scope.assignAll (assignedNames front))).1 =
            some (answerFor occurrence.name.name
              ((scope.assignAll (assignedNames (front ++ [occurrence]))).lookup?
                occurrence.name.name)) := by
        rw [occurrence.walk_eq, Walk.use, if_pos rfl, assignedNames_append, Scope.assignAll,
          Scope.assignAll, Scope.assignAll, List.foldl_append]
        rfl
      rw [walkAlong_append, Walk.andThen_of_eq_none before, assignedNames_upTo ascending,
        Option.map_some, ← Scope.lookup?_assignAll, ← here]
      exact (Walk.fst_andThen _ _ _).trans (by rw [here, Option.some_or])

theorem walkAlong_of_eq_none {target : Nat} {occurrences : List Occurrence}
    (ascending : Ascending occurrences) {scope : Scope}
    (nothing : (walkAlong target occurrences scope).1 = none) :
    walkAlong target occurrences scope =
      (none, scope.assignAll (assignedNames occurrences)) := by
  rw [fst_walkAlong ascending, Option.map_eq_none_iff] at nothing
  exact walkAlong_of_missed (by simpa using nothing) scope

end ContractLens
