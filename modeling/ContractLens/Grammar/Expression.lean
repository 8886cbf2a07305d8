import ContractLens.Grammar.Outcome

/-!
# Reading expressions

An expression is a primary, or a primary, an operator and an expression: all
operators bind alike and group to the right.  A primary is an operand with at
most one member, one argument list or one subscript behind it.  An operand is a
name, a literal or an expression in parentheses.

The arguments of a call are primaries; commas between them are passed over.
-/

namespace ContractLens.Grammar

/-- The operator that a kind of lexeme stands for. -/
def operator? : Kind → Option Operator
  | .assign => some .assign
  | .add => some .add
  | .multiply => some .multiply
  | .power => some .power
  | _ => none

mutual

def readExpression (lexemes : List Lexeme) : Outcome Expression lexemes.length :=
  (readPrimary lexemes).andMaybe fun left rest shorter =>
    match rest, shorter with
    | [], _ => .stay left []
    | lexeme :: behind, _ =>
        match operator? lexeme.kind with
        | none => .stay left (lexeme :: behind)
        | some operator =>
            ((readExpression behind).map (.binary left operator lexeme.pos)).relax.relax
termination_by 3 * lexemes.length + 2
decreasing_by
  all_goals
    try simp only [List.length_cons] at *
    omega

def readPrimary (lexemes : List Lexeme) : Outcome Expression lexemes.length :=
  (readOperand lexemes).andMaybe fun operand rest shorter =>
    match rest, shorter with
    | [], _ => .stay operand []
    | lexeme :: behind, _ =>
        match lexeme.kind with
        | .period => ((acceptName behind).map (.selector operand)).relax.relax
        | .leftParen =>
            ((readArguments behind).andThen fun arguments middle _ =>
              (accept .rightParen middle).map fun closing =>
                .call operand arguments lexeme.pos closing.pos).relax
        | .leftBracket =>
            ((readExpression behind).andThen fun subscript middle _ =>
              (accept .rightBracket middle).map fun _ => .index operand subscript).relax.relax
        | _ => .stay operand (lexeme :: behind)
termination_by 3 * lexemes.length + 1
decreasing_by
  all_goals
    try simp only [List.length_cons] at *
    omega

/-- Read the arguments of a call up to the closing parenthesis or the end. -/
def readArguments (lexemes : List Lexeme) : Outcome (List Expression) (lexemes.length + 1) :=
  match lexemes with
  | [] => .stay [] []
  | lexeme :: rest =>
      if lexeme.kind = .rightParen then
        .stay [] (lexeme :: rest)
      else if lexeme.kind = .comma then
        (readArguments rest).relax
      else
        ((readPrimary (lexeme :: rest)).andMaybe fun argument middle _ =>
          (readArguments middle).map (argument :: ·)).relax
termination_by 3 * lexemes.length + 2
decreasing_by
  all_goals
    try simp only [List.length_cons] at *
    omega

def readOperand (lexemes : List Lexeme) : Outcome Expression lexemes.length :=
  match lexemes with
  | [] => .refused .expectedExpression []
  | lexeme :: rest =>
      match lexeme.kind with
      | .identifier => .take (.ident (nameOf lexeme)) lexeme rest
      | .integer => .take (.literal .integer lexeme.literal lexeme.pos) lexeme rest
      | .string => .take (.literal .string lexeme.literal lexeme.pos) lexeme rest
      | .leftParen =>
          ((readExpression rest).andThen fun inner middle _ =>
            (accept .rightParen middle).map fun _ => .paren lexeme.pos inner).relax
      | _ => .refused .expectedExpression (lexeme :: rest)
termination_by 3 * lexemes.length
decreasing_by
  all_goals
    try simp only [List.length_cons] at *
    omega

end

end ContractLens.Grammar
