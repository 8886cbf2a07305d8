import ContractLens.Declaration.Scope
import ContractLens.Syntax.Basic

/-!
# Declarations of names

Where the name at an offset is declared.  A program is walked once from left to
right with the scopes in hand: the names of contracts are declared outermost,
those of state variables and functions inside their contract, and a function
has a scope of its own.  An assignment to a name that is not declared anywhere
declares it where it is assigned.

A walk ends at the name that stands at the target.  Names of contracts and of
functions are not asked for where they are declared.
-/

namespace ContractLens

inductive ResolutionError where
  | unknownPosition
  | notInScope (name : String)
  deriving DecidableEq, Repr

def ResolutionError.message : ResolutionError → String
  | unknownPosition => "unknown position"
  | notInScope name => s!"definition of {name} is not found in scope"

/-- A part of a walk: what is found at the target, if it is met, and the scope behind it. -/
abbrev Walk :=
  Scope → Option (Except ResolutionError Nat) × Scope

namespace Walk

def skip : Walk :=
  fun scope => (none, scope)

/-- One walk and then another, unless the first meets the target. -/
def andThen (first second : Walk) : Walk :=
  fun scope =>
    match first scope with
    | (some found, after) => (some found, after)
    | (none, after) => second after

/-- Walks one behind the other, up to the one that meets the target. -/
def inOrder (walks : List Walk) : Walk :=
  walks.foldr andThen skip

/-- A walk in a scope of its own, which is left whatever is found. -/
def nested (walk : Walk) : Walk :=
  fun scope =>
    let (found, after) := walk scope.push
    (found, after.pop?.getD .root)

def declare (name : Ident) : Walk :=
  fun scope => (none, scope.declare name.name name.pos)

/-- Declare a name that is assigned, unless it is visible already. -/
def declareAssigned (name : Ident) : Walk :=
  fun scope =>
    match scope.lookup? name.name with
    | some _ => (none, scope)
    | none => declare name scope

/-- Pass a name that is used; if it stands at the target, look it up. -/
def use (target : Nat) (name : Ident) : Walk :=
  fun scope =>
    if name.pos = target then
      (some (match scope.lookup? name.name with
        | some pos => .ok pos
        | none => .error (.notInScope name.name)), scope)
    else
      (none, scope)

end Walk

/-- The declaration that an operator makes of its left side. -/
def Operator.declaration : Operator → Expression → Walk
  | assign, .ident name => .declareAssigned name
  | _, _ => .skip

def Expression.walk (target : Nat) : Expression → Walk
  | ident name => .use target name
  | literal _ _ _ => .skip
  | binary left operator _ right =>
      (operator.declaration left).andThen ((left.walk target).andThen (right.walk target))
  | call callee arguments _ _ =>
      (callee.walk target).andThen (.inOrder (arguments.map (walk target)))
  | index base subscript => (base.walk target).andThen (subscript.walk target)
  | selector base member => (base.walk target).andThen (.use target member)
  | paren _ inner => inner.walk target

def ContractFunction.walk (target : Nat) (function : ContractFunction) : Walk :=
  .inOrder (function.body.map (Expression.walk target))

def StateVariable.walk (target : Nat) (declaration : StateVariable) : Walk :=
  (Walk.use target declaration.name).andThen (declaration.value.walk target)

/-- The walk through the members of a contract, all of which are declared first. -/
def Contract.walk (target : Nat) (contract : Contract) : Walk :=
  .inOrder [
    .inOrder (contract.stateVariables.map fun declaration => .declare declaration.name),
    .inOrder (contract.functions.map fun function => .declare function.name),
    .inOrder (contract.stateVariables.map (StateVariable.walk target)),
    .inOrder (contract.functions.map fun function => .nested (function.walk target))]

/-- The walk through a program, all of whose contracts are declared first. -/
def Program.walk (target : Nat) (program : Program) : Walk :=
  .inOrder [
    .inOrder (program.contracts.map fun contract => .declare contract.name),
    .inOrder (program.contracts.map fun contract =>
      (Walk.inOrder (contract.bases.map (.use target))).andThen
        (.nested (contract.walk target)))]

/-- Where the name at an offset is declared. -/
def Program.declarationAt (program : Program) (target : Nat) : Except ResolutionError Nat :=
  ((program.walk target .root).1).getD (.error .unknownPosition)

end ContractLens
