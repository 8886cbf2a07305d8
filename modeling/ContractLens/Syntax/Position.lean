import ContractLens.Syntax.Basic

/-!
# Positions and parts of expressions

The position of an expression is the offset of its first lexeme.  The parts of
an expression are listed from the outside in and from left to right.
-/

namespace ContractLens

namespace Expression

/-- The offset at which an expression begins. -/
def pos : Expression → Nat
  | ident name => name.pos
  | literal _ _ pos => pos
  | binary left _ _ _ => left.pos
  | call callee _ _ _ => callee.pos
  | index base _ => base.pos
  | selector base _ => base.pos
  | paren leftParen _ => leftParen

/-- An expression and all its parts, each before its own parts. -/
def parts : Expression → List Expression
  | expression@(ident _) => [expression]
  | expression@(literal _ _ _) => [expression]
  | expression@(binary left _ _ right) => expression :: (left.parts ++ right.parts)
  | expression@(call callee arguments _ _) =>
      expression :: (callee.parts ++ arguments.flatMap parts)
  | expression@(index base subscript) => expression :: (base.parts ++ subscript.parts)
  | expression@(selector base _) => expression :: base.parts
  | expression@(paren _ inner) => expression :: inner.parts

theorem head?_parts (expression : Expression) : expression.parts.head? = some expression := by
  cases expression <;> simp [parts]

end Expression

/-- The expressions of a contract: initial values, then function bodies. -/
def Contract.expressions (contract : Contract) : List Expression :=
  contract.stateVariables.map StateVariable.value ++
    contract.functions.flatMap ContractFunction.body

/-- The expressions of a program, contract by contract. -/
def Program.expressions (program : Program) : List Expression :=
  program.contracts.flatMap Contract.expressions

end ContractLens
