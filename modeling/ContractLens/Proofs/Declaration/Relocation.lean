import ContractLens.Proofs.Declaration.Walk
import ContractLens.Proofs.Syntax.Relocation
import Mathlib.Logic.Function.Basic

/-!
# Declarations in relocated programs

A walk compares offsets with its target and hands them through.  So if a program
is moved and no two offsets fall together, every name is declared where it was,
moved like everything else.
-/

namespace ContractLens

variable (move : Nat → Nat)

/-- The scope with every declaration at another offset. -/
def Scope.relocate (scope : Scope) : Scope where
  inner := scope.inner.map (Prod.map id move)
  outer := scope.outer.map (List.map (Prod.map id move))

/-- A moved walk finds what the walk finds, moved, and leaves what it leaves, moved. -/
def Walk.Relocates (walk moved : Walk) : Prop :=
  ∀ scope, moved (scope.relocate move) =
    ((walk scope).1.map (Except.map move), (walk scope).2.relocate move)

variable {move}

/-! ## Scopes -/

namespace Scope

theorem lookup_relocate (entries : List (String × Nat)) (name : String) :
    (entries.map (Prod.map id move)).lookup name = (entries.lookup name).map move := by
  induction entries with
  | nil => rfl
  | cons entry entries ih =>
      obtain ⟨first, pos⟩ := entry
      simp only [List.map_cons, Prod.map_apply, id_eq, List.lookup_cons]
      cases name == first with
      | true => rfl
      | false => exact ih

theorem lookup?_relocate (scope : Scope) (name : String) :
    (scope.relocate move).lookup? name = (scope.lookup? name).map move := by
  have each : (List.lookup name) ∘ List.map (Prod.map id move) =
      Option.map move ∘ List.lookup name := by
    funext entries
    exact lookup_relocate entries name
  have moved : (scope.relocate move).inner :: (scope.relocate move).outer =
      (scope.inner :: scope.outer).map (List.map (Prod.map id move)) := rfl
  rw [lookup?, moved, List.findSome?_map, lookup?, List.map_findSome?]
  exact congrArg (List.findSome? · _) each

@[simp] theorem relocate_push (scope : Scope) :
    scope.push.relocate move = (scope.relocate move).push :=
  rfl

theorem pop?_relocate (scope : Scope) :
    (scope.relocate move).pop? = scope.pop?.map (relocate move) := by
  obtain ⟨inner, outer⟩ := scope
  cases outer <;> rfl

end Scope

/-! ## Walks -/

namespace Walk.Relocates

variable {first second firstMoved secondMoved walk moved : Walk}

theorem skip : Walk.Relocates move .skip .skip :=
  fun _ => rfl

theorem andThen (relocates : Walk.Relocates move first firstMoved)
    (behind : Walk.Relocates move second secondMoved) :
    Walk.Relocates move (first.andThen second) (firstMoved.andThen secondMoved) := by
  intro scope
  rcases result : first scope with ⟨_ | found, after⟩
  · simp [Walk.andThen, relocates scope, result, behind after]
  · simp [Walk.andThen, relocates scope, result]

theorem inOrder_map {Item : Type} {walk moved : Item → Walk} {items : List Item}
    (each : ∀ item ∈ items, Walk.Relocates move (walk item) (moved item)) :
    Walk.Relocates move (.inOrder (items.map walk)) (.inOrder (items.map moved)) := by
  induction items with
  | nil => exact skip
  | cons item items ih =>
      exact (each item (by simp)).andThen (ih fun other member => each other (by simp [member]))

theorem nested (relocates : Walk.Relocates move walk moved) :
    Walk.Relocates move walk.nested moved.nested := by
  intro scope
  simp only [Walk.nested, ← Scope.relocate_push, relocates scope.push, Scope.pop?_relocate]
  cases (walk scope.push).2.pop? <;> rfl

theorem declare (name : Ident) :
    Walk.Relocates move (.declare name) (.declare (name.relocate move)) :=
  fun _ => rfl

theorem declareAssigned (name : Ident) :
    Walk.Relocates move (.declareAssigned name) (.declareAssigned (name.relocate move)) := by
  intro scope
  have known : (scope.relocate move).lookup? name.name = _ :=
    Scope.lookup?_relocate scope name.name
  simp only [Walk.declareAssigned, Ident.relocate, known]
  cases scope.lookup? name.name <;> rfl

theorem declaration (operator : Operator) (left : Expression) :
    Walk.Relocates move (operator.declaration left)
      (operator.declaration (left.relocate move)) := by
  cases operator with
  | assign =>
      cases left with
      | ident name =>
          simp only [Operator.declaration, Expression.relocate]
          exact declareAssigned name
      | _ => simpa only [Operator.declaration, Expression.relocate] using skip
  | _ => exact skip

section

variable (injective : Function.Injective move) {target : Nat}

include injective

theorem use (name : Ident) :
    Walk.Relocates move (.use target name) (.use (move target) (name.relocate move)) := by
  intro scope
  simp only [Walk.use, Ident.relocate, injective.eq_iff, Scope.lookup?_relocate]
  split
  · cases scope.lookup? name.name <;> rfl
  · rfl

theorem expression (expression : Expression) :
    Walk.Relocates move (expression.walk target)
      ((expression.relocate move).walk (move target)) := by
  induction expression with
  | ident name => simpa only [Expression.walk, Expression.relocate] using use injective name
  | literal kind text pos => simpa only [Expression.walk, Expression.relocate] using skip
  | binary left operator pos right leftIh rightIh =>
      simp only [Expression.walk, Expression.relocate]
      exact (declaration operator left).andThen (leftIh.andThen rightIh)
  | call callee arguments leftParen rightParen calleeIh argumentsIh =>
      simp only [Expression.walk, Expression.relocate, List.map_map]
      exact calleeIh.andThen (inOrder_map argumentsIh)
  | index base subscript baseIh subscriptIh =>
      simp only [Expression.walk, Expression.relocate]
      exact baseIh.andThen subscriptIh
  | selector base member ih =>
      simp only [Expression.walk, Expression.relocate]
      exact ih.andThen (use injective member)
  | paren leftParen inner ih => simpa only [Expression.walk, Expression.relocate] using ih

theorem function (function : ContractFunction) :
    Walk.Relocates move (function.walk target) ((function.relocate move).walk (move target)) := by
  simp only [ContractFunction.walk, ContractFunction.relocate, List.map_map]
  exact inOrder_map fun part _ => expression injective part

theorem stateVariable (declaration : StateVariable) :
    Walk.Relocates move (declaration.walk target)
      ((declaration.relocate move).walk (move target)) :=
  (use injective declaration.name).andThen (expression injective declaration.value)

theorem contract (contract : Contract) :
    Walk.Relocates move (contract.walk target) ((contract.relocate move).walk (move target)) := by
  simp only [Contract.walk, Contract.relocate, List.map_map, inOrder_cons, inOrder_nil]
  refine .andThen (inOrder_map fun declaration _ => declare declaration.name) ?_
  refine .andThen (inOrder_map fun routine _ => declare routine.name) ?_
  refine .andThen (inOrder_map fun declaration _ => stateVariable injective declaration) ?_
  exact .andThen (inOrder_map fun routine _ => (function injective routine).nested) skip

theorem program (program : Program) :
    Walk.Relocates move (program.walk target) ((program.relocate move).walk (move target)) := by
  simp only [Program.walk, Program.relocate, List.map_map, inOrder_cons, inOrder_nil]
  refine .andThen (inOrder_map fun declared _ => declare declared.name) ?_
  refine .andThen (inOrder_map fun declared _ => ?_) skip
  refine .andThen ?_ (contract injective declared).nested
  simp only [Contract.relocate, List.map_map]
  exact inOrder_map fun base _ => use injective base

end

end Walk.Relocates

/-- In a moved program every name is declared where it was, moved like everything else. -/
theorem Program.declarationAt_relocate (injective : Function.Injective move) (program : Program)
    (target : Nat) :
    (program.relocate move).declarationAt (move target) =
      (program.declarationAt target).map move := by
  have root : Scope.root.relocate move = .root := rfl
  have walked : (program.relocate move).walk (move target) (Scope.root.relocate move) = _ :=
    Walk.Relocates.program injective program .root
  rw [root] at walked
  rw [declarationAt, walked, declarationAt]
  cases (program.walk target .root).1 <;> rfl

end ContractLens
