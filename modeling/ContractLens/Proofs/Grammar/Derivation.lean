import ContractLens.Proofs.Grammar.Acceptance

/-!
# Derivations of expressions

The grammar of expressions as a relation.  It says which lexemes a phrase takes
from the front of a list and what the phrase means, without a word about the
order in which a reader tries things; only where a phrase may go on does it look
at the lexeme behind it.  The readers accept exactly what can be derived.
-/

namespace ContractLens.Grammar

open Outcome

/-- The phrases of which expressions are made. -/
inductive Phrase where
  | operand
  | primary
  | arguments
  | expression
  deriving DecidableEq, Repr

/-- A lexeme of this kind behind an operand belongs to the primary. -/
def opensSuffix (kind : Kind) : Bool :=
  kind = .period || kind = .leftParen || kind = .leftBracket

/--
`Reads phrase lexemes meaning rest` says that a phrase stands at the front of the
lexemes, what it means, and what follows it.  Arguments mean any number of
expressions, every other phrase means one.
-/
inductive Reads : Phrase → List Lexeme → List Expression → List Lexeme → Prop where
  | name {lexeme : Lexeme} {rest : List Lexeme} :
      lexeme.kind = .identifier →
        Reads .operand (lexeme :: rest) [.ident (nameOf lexeme)] rest
  | integer {lexeme : Lexeme} {rest : List Lexeme} :
      lexeme.kind = .integer →
        Reads .operand (lexeme :: rest) [.literal .integer lexeme.literal lexeme.pos] rest
  | string {lexeme : Lexeme} {rest : List Lexeme} :
      lexeme.kind = .string →
        Reads .operand (lexeme :: rest) [.literal .string lexeme.literal lexeme.pos] rest
  | paren {opening closing : Lexeme} {inside rest : List Lexeme} {inner : Expression} :
      opening.kind = .leftParen →
        Reads .expression inside [inner] (closing :: rest) →
        closing.kind = .rightParen →
        Reads .operand (opening :: inside) [.paren opening.pos inner] rest
  | bare {lexemes rest : List Lexeme} {operand : Expression} :
      Reads .operand lexemes [operand] rest →
        (∀ next ∈ rest.head?, opensSuffix next.kind = false) →
        Reads .primary lexemes [operand] rest
  | selector {point member : Lexeme} {lexemes rest : List Lexeme} {base : Expression} :
      Reads .operand lexemes [base] (point :: member :: rest) →
        point.kind = .period →
        member.kind = .identifier →
        Reads .primary lexemes [.selector base (nameOf member)] rest
  | call {opening closing : Lexeme} {lexemes inside rest : List Lexeme} {callee : Expression}
      {arguments : List Expression} :
      Reads .operand lexemes [callee] (opening :: inside) →
        opening.kind = .leftParen →
        Reads .arguments inside arguments (closing :: rest) →
        closing.kind = .rightParen →
        Reads .primary lexemes [.call callee arguments opening.pos closing.pos] rest
  | index {opening closing : Lexeme} {lexemes inside rest : List Lexeme}
      {base subscript : Expression} :
      Reads .operand lexemes [base] (opening :: inside) →
        opening.kind = .leftBracket →
        Reads .expression inside [subscript] (closing :: rest) →
        closing.kind = .rightBracket →
        Reads .primary lexemes [.index base subscript] rest
  | noMore {rest : List Lexeme} :
      (∀ next ∈ rest.head?, next.kind = .rightParen) →
        Reads .arguments rest [] rest
  | comma {comma : Lexeme} {lexemes rest : List Lexeme} {arguments : List Expression} :
      comma.kind = .comma →
        Reads .arguments lexemes arguments rest →
        Reads .arguments (comma :: lexemes) arguments rest
  | argument {lexemes middle rest : List Lexeme} {argument : Expression}
      {arguments : List Expression} :
      Reads .primary lexemes [argument] middle →
        Reads .arguments middle arguments rest →
        Reads .arguments lexemes (argument :: arguments) rest
  | primary {lexemes rest : List Lexeme} {primary : Expression} :
      Reads .primary lexemes [primary] rest →
        (∀ next ∈ rest.head?, operator? next.kind = none) →
        Reads .expression lexemes [primary] rest
  | binary {mark : Lexeme} {lexemes behind rest : List Lexeme} {left right : Expression}
      {operator : Operator} :
      Reads .primary lexemes [left] (mark :: behind) →
        operator? mark.kind = some operator →
        Reads .expression behind [right] rest →
        Reads .expression lexemes [.binary left operator mark.pos right] rest

/-! ## What is accepted can be derived -/

mutual

theorem reads_of_readExpression {lexemes rest : List Lexeme} {expression : Expression}
    (accepts : (readExpression lexemes).Accepts expression rest) :
    Reads .expression lexemes [expression] rest := by
  rw [readExpression, accepts_andMaybe] at accepts
  obtain ⟨left, middle, primary, accepts⟩ := accepts
  have first := reads_of_readPrimary primary
  have shorter := primary.shorter
  cases middle with
  | nil =>
      obtain ⟨rfl, rfl⟩ := accepts_stay.mp accepts
      exact .primary first (by simp)
  | cons mark behind =>
      dsimp only at accepts
      split at accepts
      · next none =>
          obtain ⟨rfl, rfl⟩ := accepts_stay.mp accepts
          exact .primary first (by simpa using none)
      · next operator some =>
          simp only [accepts_relax, accepts_map] at accepts
          obtain ⟨right, second, rfl⟩ := accepts
          exact .binary first some (reads_of_readExpression second)
termination_by 3 * lexemes.length + 2
decreasing_by
  all_goals
    try simp only [List.length_cons] at *
    omega

theorem reads_of_readPrimary {lexemes rest : List Lexeme} {expression : Expression}
    (accepts : (readPrimary lexemes).Accepts expression rest) :
    Reads .primary lexemes [expression] rest := by
  rw [readPrimary, accepts_andMaybe] at accepts
  obtain ⟨operand, middle, first, accepts⟩ := accepts
  have front := reads_of_readOperand first
  have shorter := first.shorter
  cases middle with
  | nil =>
      obtain ⟨rfl, rfl⟩ := accepts_stay.mp accepts
      exact .bare front (by simp)
  | cons next behind =>
      dsimp only at accepts
      split at accepts
      · next period =>
          simp only [accepts_relax, accepts_map, accepts_acceptName] at accepts
          obtain ⟨_, ⟨member, rfl, identifier, rfl⟩, rfl⟩ := accepts
          exact .selector front period identifier
      · next opening =>
          simp only [accepts_relax, accepts_andThen, accepts_map, accepts_accept] at accepts
          obtain ⟨arguments, _, inside, closing, ⟨rfl, closes⟩, rfl⟩ := accepts
          exact .call front opening (reads_of_readArguments inside) closes
      · next opening =>
          simp only [accepts_relax, accepts_andThen, accepts_map, accepts_accept] at accepts
          obtain ⟨subscript, _, inside, closing, ⟨rfl, closes⟩, rfl⟩ := accepts
          exact .index front opening (reads_of_readExpression inside) closes
      · next noPeriod noParen noBracket =>
          obtain ⟨rfl, rfl⟩ := accepts_stay.mp accepts
          exact .bare front (by simpa [opensSuffix] using ⟨⟨noPeriod, noParen⟩, noBracket⟩)
termination_by 3 * lexemes.length + 1
decreasing_by
  all_goals
    try simp only [List.length_cons] at *
    omega

theorem reads_of_readArguments {lexemes rest : List Lexeme} {arguments : List Expression}
    (accepts : (readArguments lexemes).Accepts arguments rest) :
    Reads .arguments lexemes arguments rest := by
  cases shape : lexemes with
  | nil =>
      rw [shape, readArguments] at accepts
      obtain ⟨rfl, rfl⟩ := accepts_stay.mp accepts
      exact .noMore (by simp)
  | cons lexeme behind =>
      have shorter : behind.length < lexemes.length := by simp [shape]
      rw [shape, readArguments] at accepts
      split at accepts
      · next closing =>
          obtain ⟨rfl, rfl⟩ := accepts_stay.mp accepts
          exact .noMore (by simpa using closing)
      · split at accepts
        · next comma =>
            exact .comma comma (reads_of_readArguments (accepts_relax.mp accepts))
        · simp only [accepts_relax, accepts_andMaybe, accepts_map] at accepts
          obtain ⟨argument, middle, first, others, more, rfl⟩ := accepts
          have shorter := first.shorter
          rw [← shape] at first shorter ⊢
          exact .argument (reads_of_readPrimary first) (reads_of_readArguments more)
termination_by 3 * lexemes.length + 2
decreasing_by
  all_goals
    try simp only [List.length_cons] at *
    omega

theorem reads_of_readOperand {lexemes rest : List Lexeme} {expression : Expression}
    (accepts : (readOperand lexemes).Accepts expression rest) :
    Reads .operand lexemes [expression] rest := by
  cases shape : lexemes with
  | nil =>
      rw [shape, readOperand] at accepts
      exact absurd accepts not_accepts_refused
  | cons lexeme behind =>
      have shorter : behind.length < lexemes.length := by simp [shape]
      rw [shape, readOperand] at accepts
      split at accepts
      · next identifier =>
          obtain ⟨rfl, rfl⟩ := accepts_take.mp accepts
          exact .name identifier
      · next integer =>
          obtain ⟨rfl, rfl⟩ := accepts_take.mp accepts
          exact .integer integer
      · next string =>
          obtain ⟨rfl, rfl⟩ := accepts_take.mp accepts
          exact .string string
      · next opening =>
          simp only [accepts_relax, accepts_andThen, accepts_map, accepts_accept] at accepts
          obtain ⟨inner, _, inside, closing, ⟨rfl, closes⟩, rfl⟩ := accepts
          exact .paren opening (reads_of_readExpression inside) closes
      · exact absurd accepts not_accepts_refused
termination_by 3 * lexemes.length
decreasing_by
  all_goals
    try simp only [List.length_cons] at *
    omega

end

/-! ## What can be derived is accepted -/

/-- A lexeme of this kind begins an operand, hence every phrase but arguments. -/
def opensOperand (kind : Kind) : Bool :=
  kind = .identifier || kind = .integer || kind = .string || kind = .leftParen

theorem ne_of_opensOperand {kind other : Kind} (opens : opensOperand kind = true)
    (closed : opensOperand other = false) : kind ≠ other := by
  rintro rfl
  rw [opens] at closed
  cases closed

theorem Reads.opens {phrase : Phrase} {lexemes rest : List Lexeme} {meaning : List Expression}
    (reads : Reads phrase lexemes meaning rest) (single : phrase ≠ .arguments) :
    ∃ first behind, lexemes = first :: behind ∧ opensOperand first.kind = true := by
  induction reads with
  | name identifier => exact ⟨_, _, rfl, by simp [opensOperand, identifier]⟩
  | integer integer => exact ⟨_, _, rfl, by simp [opensOperand, integer]⟩
  | string string => exact ⟨_, _, rfl, by simp [opensOperand, string]⟩
  | paren opening => exact ⟨_, _, rfl, by simp [opensOperand, opening]⟩
  | bare _ _ ih => exact ih (by simp)
  | selector _ _ _ ih => exact ih (by simp)
  | call _ _ _ _ ih => exact ih (by simp)
  | index _ _ _ _ ih => exact ih (by simp)
  | noMore | comma | argument => exact absurd rfl single
  | primary _ _ ih => exact ih (by simp)
  | binary _ _ _ ih => exact ih (by simp)

/-- The reader of a phrase; the one expression of a single phrase makes a list. -/
def Phrase.read : Phrase → (lexemes : List Lexeme) →
    Outcome (List Expression) (lexemes.length + 1)
  | operand, lexemes => ((readOperand lexemes).map ([·])).relax
  | primary, lexemes => ((readPrimary lexemes).map ([·])).relax
  | arguments, lexemes => readArguments lexemes
  | expression, lexemes => ((readExpression lexemes).map ([·])).relax

section

variable {lexemes rest : List Lexeme} {expression : Expression}

@[simp] theorem Phrase.accepts_operand :
    (Phrase.operand.read lexemes).Accepts [expression] rest ↔
      (readOperand lexemes).Accepts expression rest := by
  simp [read]

@[simp] theorem Phrase.accepts_primary :
    (Phrase.primary.read lexemes).Accepts [expression] rest ↔
      (readPrimary lexemes).Accepts expression rest := by
  simp [read]

@[simp] theorem Phrase.accepts_expression :
    (Phrase.expression.read lexemes).Accepts [expression] rest ↔
      (readExpression lexemes).Accepts expression rest := by
  simp [read]

@[simp] theorem Phrase.accepts_arguments {arguments : List Expression} :
    (Phrase.arguments.read lexemes).Accepts arguments rest ↔
      (readArguments lexemes).Accepts arguments rest :=
  Iff.rfl

theorem readPrimary_bare (operand : (readOperand lexemes).Accepts expression rest)
    (ends : ∀ next ∈ rest.head?, opensSuffix next.kind = false) :
    (readPrimary lexemes).Accepts expression rest := by
  rw [readPrimary, accepts_andMaybe]
  refine ⟨_, _, operand, ?_⟩
  cases rest with
  | nil => simp
  | cons next behind =>
      have ends : opensSuffix next.kind = false := ends next rfl
      dsimp only
      split <;> simp_all [opensSuffix]

theorem readExpression_primary (primary : (readPrimary lexemes).Accepts expression rest)
    (ends : ∀ next ∈ rest.head?, operator? next.kind = none) :
    (readExpression lexemes).Accepts expression rest := by
  rw [readExpression, accepts_andMaybe]
  refine ⟨_, _, primary, ?_⟩
  cases rest with
  | nil => simp
  | cons next behind =>
      have ends : operator? next.kind = none := ends next rfl
      simp [ends]

end

/-- Every derivation is followed by the reader of its phrase. -/
theorem Reads.accepts {phrase : Phrase} {lexemes rest : List Lexeme} {meaning : List Expression}
    (reads : Reads phrase lexemes meaning rest) :
    (phrase.read lexemes).Accepts meaning rest := by
  induction reads with
  | name identifier => simp [readOperand, identifier]
  | integer integer => simp [readOperand, integer]
  | string string => simp [readOperand, string]
  | paren opening inside closing ih =>
      simp only [Phrase.accepts_operand, Phrase.accepts_expression] at ih ⊢
      simp only [readOperand, opening, accepts_relax, accepts_andThen, accepts_map,
        accepts_accept]
      exact ⟨_, _, ih, _, ⟨rfl, closing⟩, rfl⟩
  | bare operand ends ih =>
      simp only [Phrase.accepts_operand, Phrase.accepts_primary] at ih ⊢
      exact readPrimary_bare ih ends
  | selector operand period identifier ih =>
      simp only [Phrase.accepts_operand, Phrase.accepts_primary] at ih ⊢
      rw [readPrimary, accepts_andMaybe]
      refine ⟨_, _, ih, ?_⟩
      simp [period, identifier]
  | call operand opening arguments closing operandIh argumentsIh =>
      simp only [Phrase.accepts_operand, Phrase.accepts_primary, Phrase.accepts_arguments]
        at operandIh argumentsIh ⊢
      rw [readPrimary, accepts_andMaybe]
      refine ⟨_, _, operandIh, ?_⟩
      simp only [opening, accepts_relax, accepts_andThen, accepts_map, accepts_accept]
      exact ⟨_, _, argumentsIh, _, ⟨rfl, closing⟩, rfl⟩
  | index operand opening subscript closing operandIh subscriptIh =>
      simp only [Phrase.accepts_operand, Phrase.accepts_primary, Phrase.accepts_expression]
        at operandIh subscriptIh ⊢
      rw [readPrimary, accepts_andMaybe]
      refine ⟨_, _, operandIh, ?_⟩
      simp only [opening, accepts_relax, accepts_andThen, accepts_map, accepts_accept]
      exact ⟨_, _, subscriptIh, _, ⟨rfl, closing⟩, rfl⟩
  | @noMore rest ends =>
      cases rest with
      | nil => simp [Phrase.read, readArguments]
      | cons next behind => simp [Phrase.read, readArguments, ends next rfl]
  | comma comma arguments ih =>
      simp only [Phrase.accepts_arguments] at ih ⊢
      rw [readArguments, if_neg (by simp [comma]), if_pos comma, accepts_relax]
      exact ih
  | argument primary arguments primaryIh argumentsIh =>
      simp only [Phrase.accepts_primary, Phrase.accepts_arguments] at primaryIh argumentsIh ⊢
      obtain ⟨first, behind, rfl, opens⟩ := primary.opens (by simp)
      have noParen : first.kind ≠ .rightParen := ne_of_opensOperand opens rfl
      have noComma : first.kind ≠ .comma := ne_of_opensOperand opens rfl
      rw [readArguments, if_neg noParen, if_neg noComma, accepts_relax, accepts_andMaybe]
      exact ⟨_, _, primaryIh, accepts_map.mpr ⟨_, argumentsIh, rfl⟩⟩
  | primary primary ends ih =>
      simp only [Phrase.accepts_primary, Phrase.accepts_expression] at ih ⊢
      exact readExpression_primary ih ends
  | binary primary operator right primaryIh rightIh =>
      simp only [Phrase.accepts_primary, Phrase.accepts_expression] at primaryIh rightIh ⊢
      rw [readExpression, accepts_andMaybe]
      refine ⟨_, _, primaryIh, ?_⟩
      simp only [operator, accepts_relax, accepts_map]
      exact ⟨_, rightIh, rfl⟩

/-- The readers accept exactly what can be derived. -/
theorem reads_iff {phrase : Phrase} {lexemes rest : List Lexeme} {meaning : List Expression} :
    Reads phrase lexemes meaning rest ↔ (phrase.read lexemes).Accepts meaning rest := by
  constructor
  · exact Reads.accepts
  · intro accepts
    cases phrase with
    | arguments => exact reads_of_readArguments accepts
    | operand =>
        simp only [Phrase.read, accepts_relax, accepts_map] at accepts
        obtain ⟨expression, accepts, rfl⟩ := accepts
        exact reads_of_readOperand accepts
    | primary =>
        simp only [Phrase.read, accepts_relax, accepts_map] at accepts
        obtain ⟨expression, accepts, rfl⟩ := accepts
        exact reads_of_readPrimary accepts
    | expression =>
        simp only [Phrase.read, accepts_relax, accepts_map] at accepts
        obtain ⟨expression, accepts, rfl⟩ := accepts
        exact reads_of_readExpression accepts

theorem accepts_readExpression {lexemes rest : List Lexeme} {expression : Expression} :
    (readExpression lexemes).Accepts expression rest ↔
      Reads .expression lexemes [expression] rest := by
  rw [reads_iff, Phrase.accepts_expression]

end ContractLens.Grammar
