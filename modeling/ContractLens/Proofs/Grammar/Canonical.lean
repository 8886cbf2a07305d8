import ContractLens.Proofs.Grammar.ProgramDerivation
import ContractLens.Syntax.Position

/-!
# Canonical expressions

Operators group to the right, a suffix applies to one operand, and an argument is
written without an operator.  What is read is therefore of a narrower shape than
expressions are in general; where it is not, the author has written parentheses,
and they are part of the tree.
-/

namespace ContractLens

namespace Expression

/-- The expression is an operator with two sides. -/
def isBinary : Expression → Bool
  | binary _ _ _ _ => true
  | _ => false

/-- The expression is a name, a literal, or something in parentheses. -/
def isOperand : Expression → Bool
  | ident _ | literal _ _ _ | paren _ _ => true
  | _ => false

/-- The outermost parts of the expression are such as can be written there. -/
def WellGrouped : Expression → Prop
  | binary left _ _ _ => left.isBinary = false
  | call callee arguments _ _ =>
      callee.isOperand = true ∧ ∀ argument ∈ arguments, argument.isBinary = false
  | index base _ => base.isOperand = true
  | selector base _ => base.isOperand = true
  | ident _ | literal _ _ _ | paren _ _ => True

/-- The expression is canonical: all of it is grouped as it can be written. -/
def Canonical (expression : Expression) : Prop :=
  ∀ part ∈ expression.parts, part.WellGrouped

theorem isBinary_of_isOperand {expression : Expression}
    (operand : expression.isOperand = true) : expression.isBinary = false := by
  cases expression with
  | binary left operator pos right => cases operand
  | _ => rfl

namespace Canonical

variable {left right base inner callee : Expression}

theorem ident (name : Ident) : Canonical (.ident name) := by
  simp [Canonical, parts, WellGrouped]

theorem literal (kind : LiteralKind) (text : String) (pos : Nat) :
    Canonical (.literal kind text pos) := by
  simp [Canonical, parts, WellGrouped]

theorem binary {operator : Operator} {pos : Nat} (leftCanonical : left.Canonical)
    (rightCanonical : right.Canonical) (grouped : left.isBinary = false) :
    Canonical (.binary left operator pos right) := by
  intro part member
  simp only [parts, List.mem_cons, List.mem_append] at member
  rcases member with rfl | inLeft | inRight
  · exact grouped
  · exact leftCanonical part inLeft
  · exact rightCanonical part inRight

theorem call {arguments : List Expression} {leftParen rightParen : Nat}
    (calleeCanonical : callee.Canonical)
    (argumentsCanonical : ∀ argument ∈ arguments, argument.Canonical)
    (operand : callee.isOperand = true)
    (grouped : ∀ argument ∈ arguments, argument.isBinary = false) :
    Canonical (.call callee arguments leftParen rightParen) := by
  intro part member
  simp only [parts, List.mem_cons, List.mem_append, List.mem_flatMap] at member
  rcases member with rfl | inCallee | ⟨argument, inArguments, inArgument⟩
  · exact ⟨operand, grouped⟩
  · exact calleeCanonical part inCallee
  · exact argumentsCanonical argument inArguments part inArgument

theorem index {subscript : Expression} (baseCanonical : base.Canonical)
    (subscriptCanonical : subscript.Canonical) (operand : base.isOperand = true) :
    Canonical (.index base subscript) := by
  intro part member
  simp only [parts, List.mem_cons, List.mem_append] at member
  rcases member with rfl | inBase | inSubscript
  · exact operand
  · exact baseCanonical part inBase
  · exact subscriptCanonical part inSubscript

theorem selector {name : Ident} (baseCanonical : base.Canonical)
    (operand : base.isOperand = true) : Canonical (.selector base name) := by
  intro part member
  simp only [parts, List.mem_cons] at member
  rcases member with rfl | inBase
  · exact operand
  · exact baseCanonical part inBase

theorem paren {leftParen : Nat} (innerCanonical : inner.Canonical) :
    Canonical (.paren leftParen inner) := by
  intro part member
  simp only [parts, List.mem_cons] at member
  rcases member with rfl | inInner
  · trivial
  · exact innerCanonical part inInner

end Canonical

end Expression

/-! ## What is derived -/

namespace Grammar

/-- What can stand for a phrase on the outside. -/
def Phrase.Shapes : Phrase → Expression → Prop
  | operand, meaning => meaning.isOperand = true
  | primary, meaning | arguments, meaning => meaning.isBinary = false
  | expression, _ => True

/-- What a phrase means is canonical, and of the shape of the phrase. -/
theorem Reads.canonical {phrase : Phrase} {lexemes rest : List Lexeme}
    {meaning : List Expression} (reads : Reads phrase lexemes meaning rest) :
    ∀ expression ∈ meaning, expression.Canonical ∧ phrase.Shapes expression := by
  induction reads with
  | name _ => simpa [Phrase.Shapes, Expression.isOperand] using Expression.Canonical.ident _
  | integer _ =>
      simpa [Phrase.Shapes, Expression.isOperand] using Expression.Canonical.literal _ _ _
  | string _ =>
      simpa [Phrase.Shapes, Expression.isOperand] using Expression.Canonical.literal _ _ _
  | paren _ _ _ ih =>
      obtain ⟨inner, _⟩ := ih _ (List.mem_singleton_self _)
      simpa [Phrase.Shapes, Expression.isOperand] using inner.paren
  | bare _ _ ih =>
      obtain ⟨canonical, operand⟩ := ih _ (List.mem_singleton_self _)
      simpa [Phrase.Shapes] using ⟨canonical, Expression.isBinary_of_isOperand operand⟩
  | selector _ _ _ ih =>
      obtain ⟨base, operand⟩ := ih _ (List.mem_singleton_self _)
      simpa [Phrase.Shapes, Expression.isBinary] using base.selector operand
  | @call opening closing _ _ _ callee arguments _ _ _ _ calleeIh argumentsIh =>
      obtain ⟨canonical, operand⟩ := calleeIh callee (List.mem_singleton_self _)
      have whole : (Expression.call callee arguments opening.pos closing.pos).Canonical :=
        canonical.call (fun argument member => (argumentsIh argument member).1) operand
          (fun argument member => (argumentsIh argument member).2)
      simpa [Phrase.Shapes, Expression.isBinary] using whole
  | index _ _ _ _ baseIh subscriptIh =>
      obtain ⟨base, operand⟩ := baseIh _ (List.mem_singleton_self _)
      obtain ⟨subscript, _⟩ := subscriptIh _ (List.mem_singleton_self _)
      simpa [Phrase.Shapes, Expression.isBinary] using base.index subscript operand
  | noMore _ => simp
  | comma _ _ ih => exact ih
  | argument _ _ primaryIh argumentsIh =>
      intro expression member
      rcases List.mem_cons.mp member with rfl | inOthers
      · exact primaryIh _ (List.mem_singleton_self _)
      · exact argumentsIh expression inOthers
  | primary _ _ ih =>
      obtain ⟨canonical, _⟩ := ih _ (List.mem_singleton_self _)
      simpa [Phrase.Shapes] using canonical
  | binary _ _ _ leftIh rightIh =>
      obtain ⟨left, grouped⟩ := leftIh _ (List.mem_singleton_self _)
      obtain ⟨right, _⟩ := rightIh _ (List.mem_singleton_self _)
      simpa [Phrase.Shapes] using left.binary right grouped

theorem Reads.canonical_expression {lexemes rest : List Lexeme} {expression : Expression}
    (reads : Reads .expression lexemes [expression] rest) : expression.Canonical :=
  (reads.canonical expression (List.mem_singleton_self _)).1

theorem ReadsStatement.canonical {lexemes rest : List Lexeme} {statement : List Expression}
    (reads : ReadsStatement lexemes statement rest) :
    ∀ expression ∈ statement, expression.Canonical := by
  induction reads with
  | last first _ => simpa using first.canonical_expression
  | more first _ _ ih => simpa using ⟨first.canonical_expression, ih⟩

theorem ReadsBody.canonical {lexemes rest : List Lexeme} {body : List Expression}
    (reads : ReadsBody lexemes body rest) : ∀ expression ∈ body, expression.Canonical := by
  induction reads with
  | atEnd => simp
  | closed _ => simp
  | empty _ _ ih => exact ih
  | statement first _ ih =>
      intro expression member
      rcases List.mem_append.mp member with inFirst | inOthers
      · exact first.canonical expression inFirst
      · exact ih expression inOthers

end Grammar

end ContractLens
