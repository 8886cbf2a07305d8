/-!
# Programs

The part of a contract source that is understood: a pragma, imports, and
contracts with their state variables and functions.  A body is a list of
expressions.  Every name carries the offset at which it stands, and a name is
found by that offset.
-/

namespace ContractLens

/-- A name where it occurs. -/
structure Ident where
  name : String
  pos : Nat
  deriving DecidableEq, Repr

/-- The pragma: its name, and the texts of the lexemes behind it run together. -/
structure Pragma where
  name : Ident
  value : String
  deriving DecidableEq, Repr

/-- An import: the text of one lexeme, quotes included. -/
structure Import where
  path : String
  deriving DecidableEq, Repr

/-- Who may use a state variable or a function. -/
inductive Visibility where
  | pub
  | internal
  | priv
  deriving DecidableEq, Repr

namespace Visibility

/-- The word that states a visibility. -/
def word : Visibility → String
  | pub => "public"
  | internal => "internal"
  | priv => "private"

def ofWord? : String → Option Visibility
  | "public" => some pub
  | "internal" => some internal
  | "private" => some priv
  | _ => none

@[simp] theorem ofWord?_word (visibility : Visibility) :
    ofWord? visibility.word = some visibility := by
  cases visibility <;> rfl

end Visibility

/-- The operators, all of one precedence. -/
inductive Operator where
  | assign
  | add
  | multiply
  | power
  deriving DecidableEq, Repr

def Operator.mark : Operator → String
  | assign => "="
  | add => "+"
  | multiply => "*"
  | power => "**"

inductive LiteralKind where
  | integer
  | string
  deriving DecidableEq, Repr

/-- An expression; marks that can be asked for carry their offsets. -/
inductive Expression where
  | ident (ident : Ident)
  | literal (kind : LiteralKind) (text : String) (pos : Nat)
  | binary (left : Expression) (operator : Operator) (operatorPos : Nat) (right : Expression)
  | call (callee : Expression) (arguments : List Expression) (leftParen rightParen : Nat)
  | index (base subscript : Expression)
  | selector (base : Expression) (member : Ident)
  | paren (leftParen : Nat) (inner : Expression)
  deriving Repr

/--
To show something of all expressions, assume it of the parts, each argument of a
call included.
-/
@[elab_as_elim, induction_eliminator]
theorem Expression.induction {motive : Expression → Prop}
    (ident : ∀ name, motive (.ident name))
    (literal : ∀ kind text pos, motive (.literal kind text pos))
    (binary : ∀ left operator pos right, motive left → motive right →
      motive (.binary left operator pos right))
    (call : ∀ callee arguments leftParen rightParen, motive callee →
      (∀ argument ∈ arguments, motive argument) →
      motive (.call callee arguments leftParen rightParen))
    (index : ∀ base subscript, motive base → motive subscript →
      motive (.index base subscript))
    (selector : ∀ base member, motive base → motive (.selector base member))
    (paren : ∀ leftParen inner, motive inner → motive (.paren leftParen inner))
    (expression : Expression) : motive expression := by
  match expression with
  | .ident _ => exact ident _
  | .literal _ _ _ => exact literal _ _ _
  | .binary left _ _ right =>
      exact binary _ _ _ _
        (left.induction ident literal binary call index selector paren)
        (right.induction ident literal binary call index selector paren)
  | .call callee arguments _ _ =>
      exact call _ _ _ _
        (callee.induction ident literal binary call index selector paren)
        (fun argument _ => argument.induction ident literal binary call index selector paren)
  | .index base subscript =>
      exact index _ _
        (base.induction ident literal binary call index selector paren)
        (subscript.induction ident literal binary call index selector paren)
  | .selector base _ =>
      exact selector _ _ (base.induction ident literal binary call index selector paren)
  | .paren _ inner =>
      exact paren _ _ (inner.induction ident literal binary call index selector paren)

/-- A state variable with its initial value; without a visibility word it has none. -/
structure StateVariable where
  type : Ident
  visibility : Option Visibility
  isConstant : Bool
  name : Ident
  value : Expression
  deriving Repr

/-- A function or constructor; its body is the list of its expressions. -/
structure ContractFunction where
  name : Ident
  visibility : Visibility
  body : List Expression
  deriving Repr

/-- A contract with the contracts it names behind `is` and its members. -/
structure Contract where
  name : Ident
  bases : List Ident
  stateVariables : List StateVariable
  functions : List ContractFunction
  deriving Repr

structure Program where
  pragma? : Option Pragma
  imports : List Import
  contracts : List Contract
  deriving Repr

end ContractLens
