import ContractLens.Syntax.Basic
import ContractLens.Syntax.Outline

/-!
# Programs as trees

A program is printed as an outline with one line for every declaration and
every expression.  Offsets are printed behind `@`; only those of type names and
of opening parentheses around an expression are left out.
-/

namespace ContractLens

/-- A name and where it stands. -/
def Ident.label (name : Ident) : String :=
  s!"{name.name} @{name.pos}"

def Expression.outline : Expression → Outline
  | ident name => .leaf s!"Ident {name.label}"
  | literal .integer text pos => .leaf s!"Int {text} @{pos}"
  | literal .string text pos => .leaf s!"String {text} @{pos}"
  | binary left operator pos right =>
      .node s!"Binary {operator.mark} @{pos}" [left.outline, right.outline]
  | call callee arguments leftParen rightParen =>
      .node s!"Call @{leftParen}..{rightParen}" (callee.outline :: arguments.map outline)
  | index base subscript => .node "Index" [base.outline, subscript.outline]
  | selector base member => .node s!"Selector .{member.label}" [base.outline]
  | paren _ inner => .node "Paren" [inner.outline]

namespace StateVariable

/-- The words between the name of a state variable and its offset. -/
def modifiers (declaration : StateVariable) : String :=
  (match declaration.visibility with
    | some visibility => " " ++ visibility.word
    | none => "") ++
  (if declaration.isConstant then " constant" else "")

/-- The outline of a state variable: its initial value stands below it. -/
def outline (declaration : StateVariable) : Outline :=
  .node
    (s!"StateVariable {declaration.type.name} {declaration.name.name}" ++
      s!"{declaration.modifiers} @{declaration.name.pos}")
    [declaration.value.outline]

end StateVariable

def ContractFunction.outline (function : ContractFunction) : Outline :=
  .node s!"Function {function.name.name} {function.visibility.word} @{function.name.pos}"
    (function.body.map Expression.outline)

namespace Contract

/-- The list of bases behind the name of a contract, if there are any. -/
def basesLabel (contract : Contract) : String :=
  if contract.bases.isEmpty then
    ""
  else
    " is " ++ ", ".intercalate (contract.bases.map Ident.label)

/-- The outline of a contract: state variables, then functions. -/
def outline (contract : Contract) : Outline :=
  .node s!"Contract {contract.name.label}{contract.basesLabel}"
    (contract.stateVariables.map StateVariable.outline ++
      contract.functions.map ContractFunction.outline)

def render (contract : Contract) (level : Nat) : String :=
  contract.outline.render level

end Contract

namespace Program

/-- The outlines of a program: pragma, imports, contracts. -/
def outlines (program : Program) : List Outline :=
  (program.pragma?.map fun pragma =>
      Outline.leaf s!"Pragma {pragma.name.name} {pragma.value} @{pragma.name.pos}").toList ++
    program.imports.map (fun item => Outline.leaf s!"Import {item.path}") ++
    program.contracts.map Contract.outline

def render (program : Program) : String :=
  String.join (program.outlines.map (Outline.render 0))

end Program

end ContractLens
