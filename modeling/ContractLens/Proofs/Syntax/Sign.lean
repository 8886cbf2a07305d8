import ContractLens.Grammar.Expression
import ContractLens.Proofs.Token.Symbol

/-!
# Signs of expressions

The signs of an expression are the lexemes with which it is written, from left to
right.  A sign has a symbol, and an offset if the expression records it.  Commas
between the arguments of a call are no signs: they may be left out.
-/

namespace ContractLens

/-- A symbol of an expression, with its offset if that is recorded. -/
structure Sign where
  symbol : Symbol
  pos? : Option Nat
  deriving DecidableEq, Repr

namespace Sign

def name (name : Ident) : Sign :=
  ⟨.word name.name, some name.pos⟩

/-- The sign of a mark whose offset is recorded. -/
def mark (kind : Kind) (pos : Nat) : Sign :=
  ⟨.mark kind, some pos⟩

/-- The sign of a mark whose offset is not recorded. -/
def bare (kind : Kind) : Sign :=
  ⟨.mark kind, none⟩

/-- The lexeme that a sign is, if its offset is recorded. -/
def lexeme? (sign : Sign) : Option Lexeme :=
  sign.pos?.map fun pos => ⟨pos, sign.symbol.kind, sign.symbol.literal⟩

/-- A lexeme is the sign: the symbols agree, and the offset if it is recorded. -/
def Describes (sign : Sign) (lexeme : Lexeme) : Prop :=
  lexeme.symbol = sign.symbol ∧ ∀ pos ∈ sign.pos?, lexeme.pos = pos

@[simp] theorem lexeme?_mark (kind : Kind) (pos : Nat) :
    (mark kind pos).lexeme? = some ⟨pos, kind, (Symbol.mark kind).literal⟩ :=
  rfl

@[simp] theorem lexeme?_bare (kind : Kind) : (bare kind).lexeme? = none :=
  rfl

end Sign

def Operator.kind : Operator → Kind
  | assign => .assign
  | add => .add
  | multiply => .multiply
  | power => .power

theorem Grammar.operator?_eq_some {kind : Kind} {operator : Operator} :
    operator? kind = some operator ↔ kind = operator.kind := by
  cases operator <;> cases kind <;> simp [operator?, Operator.kind]

def LiteralKind.kind : LiteralKind → Kind
  | integer => .integer
  | string => .string

def Ident.lexeme (name : Ident) : Lexeme :=
  ⟨name.pos, .identifier, name.name⟩

@[simp] theorem Sign.lexeme?_name (name : Ident) : (Sign.name name).lexeme? = some name.lexeme :=
  rfl

namespace Expression

/-- The signs of an expression from left to right. -/
def signs : Expression → List Sign
  | ident name => [.name name]
  | literal kind text pos => [⟨⟨kind.kind, text⟩, some pos⟩]
  | binary left operator pos right => left.signs ++ .mark operator.kind pos :: right.signs
  | call callee arguments leftParen rightParen =>
      callee.signs ++ .mark .leftParen leftParen :: arguments.flatMap signs ++
        [.mark .rightParen rightParen]
  | index base subscript =>
      base.signs ++ .bare .leftBracket :: subscript.signs ++ [.bare .rightBracket]
  | selector base member => base.signs ++ [.bare .period, .name member]
  | paren leftParen inner =>
      .mark .leftParen leftParen :: inner.signs ++ [.bare .rightParen]

def symbols (expression : Expression) : List Symbol :=
  expression.signs.map Sign.symbol

end Expression

/-- A kind that a lexeme of an expression may have, commas apart. -/
def Kind.inExpression : Kind → Bool
  | identifier | integer | string | add | multiply | power | assign | leftParen | rightParen
  | leftBracket | rightBracket | period => true
  | _ => false

theorem Expression.inExpression_of_mem_signs {expression : Expression} :
    ∀ sign ∈ expression.signs, sign.symbol.kind.inExpression = true := by
  induction expression with
  | ident name => simp [signs, Sign.name, Symbol.word, Kind.inExpression]
  | literal kind text pos => cases kind <;> simp [signs, LiteralKind.kind, Kind.inExpression]
  | binary left operator pos right leftIh rightIh =>
      intro sign member
      simp only [signs, List.mem_append, List.mem_cons] at member
      rcases member with inLeft | rfl | inRight
      · exact leftIh sign inLeft
      · cases operator <;> rfl
      · exact rightIh sign inRight
  | call callee arguments leftParen rightParen calleeIh argumentsIh =>
      intro sign member
      simp only [signs, List.mem_append, List.mem_cons, List.mem_flatMap, List.not_mem_nil,
        or_false] at member
      rcases member with (inCallee | rfl | ⟨argument, inArguments, inArgument⟩) | rfl
      · exact calleeIh sign inCallee
      · rfl
      · exact argumentsIh argument inArguments sign inArgument
      · rfl
  | index base subscript baseIh subscriptIh =>
      intro sign member
      simp only [signs, List.mem_append, List.mem_cons, List.not_mem_nil, or_false] at member
      rcases member with (inBase | rfl | inSubscript) | rfl
      · exact baseIh sign inBase
      · rfl
      · exact subscriptIh sign inSubscript
      · rfl
  | selector base member baseIh =>
      intro sign inside
      simp only [signs, List.mem_append, List.mem_cons, List.not_mem_nil, or_false] at inside
      rcases inside with inBase | rfl | rfl
      · exact baseIh sign inBase
      · rfl
      · rfl
  | paren leftParen inner innerIh =>
      intro sign member
      simp only [signs, List.mem_append, List.mem_cons, List.not_mem_nil, or_false] at member
      rcases member with (rfl | inInner) | rfl
      · rfl
      · exact innerIh sign inInner
      · rfl

end ContractLens
