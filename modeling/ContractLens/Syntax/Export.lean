import ContractLens.Json
import ContractLens.Syntax.Basic

/-!
# Programs as JSON

A program is exported node by node.  A declaration is an object with its parts
in a fixed order, an expression an object with one field that says what it is.
-/

namespace ContractLens

def Ident.toJson (name : Ident) : Json :=
  .object [("name", .string name.name), ("pos", .number name.pos)]

def Visibility.toJson : Visibility → Json
  | pub => .string "Public"
  | internal => .string "Internal"
  | priv => .string "Private"

def Operator.toJson : Operator → Json
  | assign => .string "Assign"
  | add => .string "Add"
  | multiply => .string "Mul"
  | power => .string "Pow"

def LiteralKind.toJson : LiteralKind → Json
  | integer => .string "Int"
  | string => .string "String"

def Expression.toJson : Expression → Json
  | ident name => .object [("Ident", name.toJson)]
  | literal kind text pos =>
      .object [("BasicLit",
        .object [("kind", kind.toJson), ("value", .string text), ("pos", .number pos)])]
  | binary left operator pos right =>
      .object [("Binary",
        .object [("left", left.toJson), ("op", operator.toJson), ("op_pos", .number pos),
          ("right", right.toJson)])]
  | call callee arguments leftParen rightParen =>
      .object [("Call",
        .object [("callee", callee.toJson), ("args", .array (arguments.map toJson)),
          ("lparen", .number leftParen), ("rparen", .number rightParen)])]
  | index base subscript =>
      .object [("Index", .object [("base", base.toJson), ("index", subscript.toJson)])]
  | selector base member =>
      .object [("Selector", .object [("base", base.toJson), ("member", member.toJson)])]
  | paren leftParen inner =>
      .object [("Paren", .object [("lparen", .number leftParen), ("inner", inner.toJson)])]

def StateVariable.toJson (declaration : StateVariable) : Json :=
  .object [
    ("ty", declaration.type.toJson),
    ("visibility", (declaration.visibility.map Visibility.toJson).getD .null),
    ("is_constant", .bool declaration.isConstant),
    ("name", declaration.name.toJson),
    ("rhs", declaration.value.toJson)]

def ContractFunction.toJson (function : ContractFunction) : Json :=
  .object [
    ("name", function.name.toJson),
    ("visibility", function.visibility.toJson),
    ("body", .array (function.body.map Expression.toJson))]

def Contract.toJson (contract : Contract) : Json :=
  .object [
    ("name", contract.name.toJson),
    ("inherits", .array (contract.bases.map Ident.toJson)),
    ("state_variables", .array (contract.stateVariables.map StateVariable.toJson)),
    ("functions", .array (contract.functions.map ContractFunction.toJson))]

def Pragma.toJson (pragma : Pragma) : Json :=
  .object [("name", pragma.name.toJson), ("value", .string pragma.value)]

def Import.toJson (item : Import) : Json :=
  .object [("path", .string item.path)]

def Program.toJson (program : Program) : Json :=
  .object [
    ("pragma", (program.pragma?.map Pragma.toJson).getD .null),
    ("imports", .array (program.imports.map Import.toJson)),
    ("contracts", .array (program.contracts.map Contract.toJson))]

end ContractLens
