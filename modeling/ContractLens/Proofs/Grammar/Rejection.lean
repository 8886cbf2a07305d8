import ContractLens.Proofs.Grammar.Derivation
import ContractLens.Proofs.Grammar.Refusal

/-!
# Refused expressions

The ways in which an expression can be refused, as a relation.  A phrase is
refused where one of its parts is, with the parts in front of it derived, or where
the lexeme that must come next is missing.  The readers refuse exactly what this
relation says, for this cause and in front of these lexemes.
-/

namespace ContractLens.Grammar

open Outcome

/-- No operand begins here. -/
def NoOperand (lexemes : List Lexeme) : Prop :=
  ∀ next ∈ lexemes.head?, opensOperand next.kind = false

/-- `Rejects phrase lexemes cause rest` says why and where a phrase is refused. -/
inductive Rejects : Phrase → List Lexeme → Cause → List Lexeme → Prop where
  | noOperand {lexemes : List Lexeme} :
      NoOperand lexemes → Rejects .operand lexemes .expectedExpression lexemes
  | inParen {opening : Lexeme} {inside rest : List Lexeme} {cause : Cause} :
      opening.kind = .leftParen →
        Rejects .expression inside cause rest →
        Rejects .operand (opening :: inside) cause rest
  | unclosedParen {opening : Lexeme} {inside rest : List Lexeme} {inner : Expression} :
      opening.kind = .leftParen →
        Reads .expression inside [inner] rest →
        Lacks .rightParen rest →
        Rejects .operand (opening :: inside) (.expected .rightParen) rest
  | inOperand {lexemes rest : List Lexeme} {cause : Cause} :
      Rejects .operand lexemes cause rest → Rejects .primary lexemes cause rest
  | noMember {point : Lexeme} {lexemes rest : List Lexeme} {base : Expression} :
      Reads .operand lexemes [base] (point :: rest) →
        point.kind = .period →
        Lacks .identifier rest →
        Rejects .primary lexemes (.expected .identifier) rest
  | inArguments {opening : Lexeme} {lexemes inside rest : List Lexeme} {callee : Expression}
      {cause : Cause} :
      Reads .operand lexemes [callee] (opening :: inside) →
        opening.kind = .leftParen →
        Rejects .arguments inside cause rest →
        Rejects .primary lexemes cause rest
  | unclosedArguments {opening : Lexeme} {lexemes inside rest : List Lexeme}
      {callee : Expression} {arguments : List Expression} :
      Reads .operand lexemes [callee] (opening :: inside) →
        opening.kind = .leftParen →
        Reads .arguments inside arguments rest →
        Lacks .rightParen rest →
        Rejects .primary lexemes (.expected .rightParen) rest
  | inSubscript {opening : Lexeme} {lexemes inside rest : List Lexeme} {base : Expression}
      {cause : Cause} :
      Reads .operand lexemes [base] (opening :: inside) →
        opening.kind = .leftBracket →
        Rejects .expression inside cause rest →
        Rejects .primary lexemes cause rest
  | unclosedSubscript {opening : Lexeme} {lexemes inside rest : List Lexeme}
      {base subscript : Expression} :
      Reads .operand lexemes [base] (opening :: inside) →
        opening.kind = .leftBracket →
        Reads .expression inside [subscript] rest →
        Lacks .rightBracket rest →
        Rejects .primary lexemes (.expected .rightBracket) rest
  | behindComma {comma : Lexeme} {lexemes rest : List Lexeme} {cause : Cause} :
      comma.kind = .comma →
        Rejects .arguments lexemes cause rest →
        Rejects .arguments (comma :: lexemes) cause rest
  | inArgument {first : Lexeme} {behind rest : List Lexeme} {cause : Cause} :
      first.kind ≠ .rightParen →
        first.kind ≠ .comma →
        Rejects .primary (first :: behind) cause rest →
        Rejects .arguments (first :: behind) cause rest
  | behindArgument {lexemes middle rest : List Lexeme} {argument : Expression} {cause : Cause} :
      Reads .primary lexemes [argument] middle →
        Rejects .arguments middle cause rest →
        Rejects .arguments lexemes cause rest
  | inPrimary {lexemes rest : List Lexeme} {cause : Cause} :
      Rejects .primary lexemes cause rest → Rejects .expression lexemes cause rest
  | inRight {mark : Lexeme} {lexemes behind rest : List Lexeme} {left : Expression}
      {operator : Operator} {cause : Cause} :
      Reads .primary lexemes [left] (mark :: behind) →
        operator? mark.kind = some operator →
        Rejects .expression behind cause rest →
        Rejects .expression lexemes cause rest

/-! ## What is refused is rejected -/

mutual

theorem rejects_of_readExpression {lexemes rest : List Lexeme} {cause : Cause}
    (refuses : (readExpression lexemes).Refuses cause rest) :
    Rejects .expression lexemes cause rest := by
  rw [readExpression, refuses_andMaybe] at refuses
  rcases refuses with first | ⟨left, middle, primary, refuses⟩
  · exact .inPrimary (rejects_of_readPrimary first)
  have shorter := primary.shorter
  cases middle with
  | nil => exact absurd refuses not_refuses_stay
  | cons mark behind =>
      dsimp only at refuses
      split at refuses
      · exact absurd refuses not_refuses_stay
      · next operator some =>
          simp only [refuses_relax, refuses_map] at refuses
          exact .inRight (reads_of_readPrimary primary) some (rejects_of_readExpression refuses)
termination_by 3 * lexemes.length + 2
decreasing_by
  all_goals
    try simp only [List.length_cons] at *
    omega

theorem rejects_of_readPrimary {lexemes rest : List Lexeme} {cause : Cause}
    (refuses : (readPrimary lexemes).Refuses cause rest) :
    Rejects .primary lexemes cause rest := by
  rw [readPrimary, refuses_andMaybe] at refuses
  rcases refuses with first | ⟨operand, middle, first, refuses⟩
  · exact .inOperand (rejects_of_readOperand first)
  have front := reads_of_readOperand first
  have shorter := first.shorter
  cases middle with
  | nil => exact absurd refuses not_refuses_stay
  | cons next behind =>
      dsimp only at refuses
      split at refuses
      · next period =>
          simp only [refuses_relax, refuses_map, refuses_acceptName] at refuses
          obtain ⟨rfl, rfl, lacks⟩ := refuses
          exact .noMember front period lacks
      · next opening =>
          simp only [refuses_relax, refuses_andThen, refuses_map, refuses_accept] at refuses
          rcases refuses with inside | ⟨arguments, middle, inside, rfl, rfl, lacks⟩
          · exact .inArguments front opening (rejects_of_readArguments inside)
          · exact .unclosedArguments front opening (reads_of_readArguments inside) lacks
      · next opening =>
          simp only [refuses_relax, refuses_andThen, refuses_map, refuses_accept] at refuses
          rcases refuses with inside | ⟨subscript, middle, inside, rfl, rfl, lacks⟩
          · exact .inSubscript front opening (rejects_of_readExpression inside)
          · exact .unclosedSubscript front opening (reads_of_readExpression inside) lacks
      · exact absurd refuses not_refuses_stay
termination_by 3 * lexemes.length + 1
decreasing_by
  all_goals
    try simp only [List.length_cons] at *
    omega

theorem rejects_of_readArguments {lexemes rest : List Lexeme} {cause : Cause}
    (refuses : (readArguments lexemes).Refuses cause rest) :
    Rejects .arguments lexemes cause rest := by
  cases shape : lexemes with
  | nil =>
      rw [shape, readArguments] at refuses
      exact absurd refuses not_refuses_stay
  | cons lexeme behind =>
      have shorter : behind.length < lexemes.length := by simp [shape]
      rw [shape, readArguments] at refuses
      split at refuses
      · exact absurd refuses not_refuses_stay
      · next noClosing =>
          split at refuses
          · next comma =>
              exact .behindComma comma (rejects_of_readArguments (refuses_relax.mp refuses))
          · next noComma =>
              simp only [refuses_relax, refuses_andMaybe, refuses_map] at refuses
              rw [← shape] at refuses
              rcases refuses with first | ⟨argument, middle, first, more⟩
              · have rejects := rejects_of_readPrimary first
                rw [shape] at rejects
                exact .inArgument noClosing noComma rejects
              · have shorter := first.shorter
                rw [← shape]
                exact .behindArgument (reads_of_readPrimary first)
                  (rejects_of_readArguments more)
termination_by 3 * lexemes.length + 2
decreasing_by all_goals omega

theorem rejects_of_readOperand {lexemes rest : List Lexeme} {cause : Cause}
    (refuses : (readOperand lexemes).Refuses cause rest) :
    Rejects .operand lexemes cause rest := by
  cases shape : lexemes with
  | nil =>
      rw [shape, readOperand] at refuses
      obtain ⟨rfl, rfl⟩ := refuses_refused.mp refuses
      exact .noOperand (by simp [NoOperand])
  | cons lexeme behind =>
      have shorter : behind.length < lexemes.length := by simp [shape]
      rw [shape, readOperand] at refuses
      split at refuses
      · exact absurd refuses not_refuses_take
      · exact absurd refuses not_refuses_take
      · exact absurd refuses not_refuses_take
      · next opening =>
          simp only [refuses_relax, refuses_andThen, refuses_map, refuses_accept] at refuses
          rcases refuses with inside | ⟨inner, middle, inside, rfl, rfl, lacks⟩
          · exact .inParen opening (rejects_of_readExpression inside)
          · exact .unclosedParen opening (reads_of_readExpression inside) lacks
      · next noName noInteger noString noParen =>
          obtain ⟨rfl, rfl⟩ := refuses_refused.mp refuses
          exact .noOperand (by
            simpa [NoOperand, opensOperand] using ⟨⟨⟨noName, noInteger⟩, noString⟩, noParen⟩)
termination_by 3 * lexemes.length
decreasing_by
  all_goals
    try simp only [List.length_cons] at *
    omega

end

/-! ## What is rejected is refused -/

section

variable {lexemes rest : List Lexeme} {cause : Cause}

@[simp] theorem Phrase.refuses_operand :
    (Phrase.operand.read lexemes).Refuses cause rest ↔
      (readOperand lexemes).Refuses cause rest := by
  simp [read]

@[simp] theorem Phrase.refuses_primary :
    (Phrase.primary.read lexemes).Refuses cause rest ↔
      (readPrimary lexemes).Refuses cause rest := by
  simp [read]

@[simp] theorem Phrase.refuses_expression :
    (Phrase.expression.read lexemes).Refuses cause rest ↔
      (readExpression lexemes).Refuses cause rest := by
  simp [read]

@[simp] theorem Phrase.refuses_arguments :
    (Phrase.arguments.read lexemes).Refuses cause rest ↔
      (readArguments lexemes).Refuses cause rest :=
  Iff.rfl

theorem refuses_readOperand_of_noOperand (none : NoOperand lexemes) :
    (readOperand lexemes).Refuses .expectedExpression lexemes := by
  cases lexemes with
  | nil => simp [readOperand]
  | cons first behind =>
      have closed : opensOperand first.kind = false := none first rfl
      rw [readOperand]
      split <;> simp_all [opensOperand]

end

/-- Every rejected phrase is refused by its reader. -/
theorem Rejects.refuses {phrase : Phrase} {lexemes rest : List Lexeme} {cause : Cause}
    (rejects : Rejects phrase lexemes cause rest) : (phrase.read lexemes).Refuses cause rest := by
  induction rejects with
  | noOperand none => exact Phrase.refuses_operand.mpr (refuses_readOperand_of_noOperand none)
  | inParen opening _ ih =>
      simp only [Phrase.refuses_operand, Phrase.refuses_expression] at ih ⊢
      simp only [readOperand, opening, refuses_relax, refuses_andThen]
      exact .inl ih
  | unclosedParen opening inner lacks =>
      rw [Phrase.refuses_operand]
      simp only [readOperand, opening, refuses_relax, refuses_andThen]
      exact .inr ⟨_, _, accepts_readExpression.mpr inner, by simpa using lacks⟩
  | inOperand _ ih =>
      simp only [Phrase.refuses_operand, Phrase.refuses_primary] at ih ⊢
      rw [readPrimary, refuses_andMaybe]
      exact .inl ih
  | noMember operand period lacks =>
      rw [Phrase.refuses_primary, readPrimary, refuses_andMaybe]
      refine .inr ⟨_, _, Phrase.accepts_operand.mp operand.accepts, ?_⟩
      simpa [period] using lacks
  | inArguments operand opening _ ih =>
      rw [Phrase.refuses_primary, readPrimary, refuses_andMaybe]
      refine .inr ⟨_, _, Phrase.accepts_operand.mp operand.accepts, ?_⟩
      simp only [opening, refuses_relax, refuses_andThen]
      exact .inl ih
  | unclosedArguments operand opening arguments lacks =>
      rw [Phrase.refuses_primary, readPrimary, refuses_andMaybe]
      refine .inr ⟨_, _, Phrase.accepts_operand.mp operand.accepts, ?_⟩
      simp only [opening, refuses_relax, refuses_andThen]
      exact .inr ⟨_, _, arguments.accepts, by simpa using lacks⟩
  | inSubscript operand opening _ ih =>
      rw [Phrase.refuses_primary, readPrimary, refuses_andMaybe]
      refine .inr ⟨_, _, Phrase.accepts_operand.mp operand.accepts, ?_⟩
      simp only [opening, refuses_relax, refuses_andThen]
      exact .inl (Phrase.refuses_expression.mp ih)
  | unclosedSubscript operand opening subscript lacks =>
      rw [Phrase.refuses_primary, readPrimary, refuses_andMaybe]
      refine .inr ⟨_, _, Phrase.accepts_operand.mp operand.accepts, ?_⟩
      simp only [opening, refuses_relax, refuses_andThen]
      exact .inr ⟨_, _, accepts_readExpression.mpr subscript, by simpa using lacks⟩
  | behindComma comma _ ih =>
      simp only [Phrase.refuses_arguments] at ih ⊢
      rw [readArguments, if_neg (by simp [comma]), if_pos comma, refuses_relax]
      exact ih
  | inArgument noClosing noComma _ ih =>
      simp only [Phrase.refuses_primary, Phrase.refuses_arguments] at ih ⊢
      rw [readArguments, if_neg noClosing, if_neg noComma, refuses_relax, refuses_andMaybe]
      exact .inl ih
  | behindArgument primary _ ih =>
      simp only [Phrase.refuses_arguments] at ih ⊢
      obtain ⟨first, behind, rfl, opens⟩ := primary.opens (by simp)
      have noParen : first.kind ≠ .rightParen := ne_of_opensOperand opens rfl
      have noComma : first.kind ≠ .comma := ne_of_opensOperand opens rfl
      rw [readArguments, if_neg noParen, if_neg noComma, refuses_relax, refuses_andMaybe]
      exact .inr ⟨_, _, Phrase.accepts_primary.mp primary.accepts, refuses_map.mpr ih⟩
  | inPrimary _ ih =>
      simp only [Phrase.refuses_primary, Phrase.refuses_expression] at ih ⊢
      rw [readExpression, refuses_andMaybe]
      exact .inl ih
  | inRight primary operator _ ih =>
      simp only [Phrase.refuses_expression] at ih ⊢
      rw [readExpression, refuses_andMaybe]
      refine .inr ⟨_, _, Phrase.accepts_primary.mp primary.accepts, ?_⟩
      simp only [operator, refuses_relax, refuses_map]
      exact ih

theorem refuses_readExpression {lexemes rest : List Lexeme} {cause : Cause} :
    (readExpression lexemes).Refuses cause rest ↔ Rejects .expression lexemes cause rest := by
  constructor
  · exact rejects_of_readExpression
  · intro rejects
    exact Phrase.refuses_expression.mp rejects.refuses

end ContractLens.Grammar
