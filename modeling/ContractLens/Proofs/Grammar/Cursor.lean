import ContractLens.Grammar.Program

/-!
# A cursor over the lexemes

Reading said as what is done: a cursor advances over the lexemes, procedures call each
other, and loops take turns until one of them leaves the loop.  Nothing says that a loop
ends or that a procedure moves the cursor.  So turns and nested calls are limited from
outside, and to need more of them is an outcome of its own.
-/

namespace ContractLens.Grammar

/-- Where the cursor stands, and how often it was advanced. -/
structure Cursor where
  unread : List Lexeme
  advances : Nat
  deriving DecidableEq, Repr

/-- Why nothing is returned: a phrase is refused, or there are not turns or calls enough. -/
inductive Halt where
  | refused (cause : Cause)
  | exhausted

/-- A procedure that moves the cursor, and returns or halts. -/
abbrev Step (α : Type) :=
  EStateM Halt Cursor α

namespace Step

variable {α σ : Type}

/-- The lexeme at the cursor; none at the end of the input. -/
def peek : Step (Option Lexeme) := fun cursor =>
  .ok cursor.unread.head? cursor

/-- Advance the cursor; at the end of the input this counts, and moves nothing. -/
def advance : Step Unit := fun cursor =>
  .ok () ⟨cursor.unread.tail, cursor.advances + 1⟩

def refuse (cause : Cause) : Step α :=
  throw (.refused cause)

def expect (kind : Kind) : Step Lexeme := do
  match ← peek with
  | some lexeme =>
      if lexeme.kind = kind then
        advance
        return lexeme
      else
        refuse (.expected kind)
  | none => refuse (.expected kind)

def expectName : Step Ident := do
  return nameOf (← expect .identifier)

/-- How a turn of a loop ends: there is another one, or the loop is left. -/
inductive Turn (σ α : Type) where
  | again (state : σ)
  | done (value : α)

/-- Take turns until one of them leaves the loop. -/
def loop (turn : σ → Step (Turn σ α)) : (turns : Nat) → σ → Step α
  | 0, _ => throw .exhausted
  | turns + 1, state => do
      match ← turn state with
      | .again state => loop turn turns state
      | .done value => return value

end Step

open Step

/-! ## Expressions -/

/-- The three procedures for expressions, which call each other. -/
structure Routines where
  expression : Step Expression
  primary : Step Expression
  operand : Step Expression

def argumentTurn (primary : Step Expression) (arguments : List Expression) :
    Step (Turn (List Expression) (List Expression)) := do
  match ← peek with
  | none => return .done arguments
  | some lexeme =>
      if lexeme.kind = .rightParen then
        return .done arguments
      else if lexeme.kind = .comma then
        advance
        return .again arguments
      else
        return .again (arguments ++ [← primary])

namespace Routines

variable (inner : Routines)

/-- A primary, and behind an operator another expression. -/
def nextExpression : Step Expression := do
  let left ← inner.primary
  match ← peek with
  | none => return left
  | some lexeme =>
      match operator? lexeme.kind with
      | none => return left
      | some operator =>
          advance
          return .binary left operator lexeme.pos (← inner.expression)

/-- An operand with at most one suffix. -/
def nextPrimary (turns : Nat) : Step Expression := do
  let operand ← inner.operand
  match ← peek with
  | none => return operand
  | some lexeme =>
      match lexeme.kind with
      | .period =>
          advance
          return .selector operand (← expectName)
      | .leftParen =>
          advance
          let arguments ← loop (argumentTurn inner.primary) turns []
          let closing ← expect .rightParen
          return .call operand arguments lexeme.pos closing.pos
      | .leftBracket =>
          advance
          let subscript ← inner.expression
          let _ ← expect .rightBracket
          return .index operand subscript
      | _ => return operand

/-- A name, a literal or an expression in parentheses. -/
def nextOperand : Step Expression := do
  match ← peek with
  | none => refuse .expectedExpression
  | some lexeme =>
      match lexeme.kind with
      | .identifier => return .ident (← expectName)
      | .integer =>
          advance
          return .literal .integer lexeme.literal lexeme.pos
      | .string =>
          advance
          return .literal .string lexeme.literal lexeme.pos
      | .leftParen =>
          advance
          let expression ← inner.expression
          let _ ← expect .rightParen
          return .paren lexeme.pos expression
      | _ => refuse .expectedExpression

end Routines

/-- The procedures for expressions with a limit on nested calls and on the turns of a loop. -/
def routines : (limit : Nat) → Routines
  | 0 => ⟨throw .exhausted, throw .exhausted, throw .exhausted⟩
  | limit + 1 =>
      let inner := routines limit
      ⟨inner.nextExpression, inner.nextPrimary limit, inner.nextOperand⟩

/-! ## Members -/

def statementTurn (expression : Step Expression) (expressions : List Expression) :
    Step (Turn (List Expression) (List Expression)) := do
  let lexeme? ← peek
  if lexeme?.all fun lexeme => lexeme.kind = .semicolon || lexeme.kind = .rightBrace then
    return .done expressions
  else
    return .again (expressions ++ [← expression])

def nextStatement (expression : Step Expression) (turns : Nat) : Step (List Expression) := do
  let first ← expression
  let expressions ← loop (statementTurn expression) turns [first]
  let _ ← expect .semicolon
  return expressions

def bodyTurn (expression : Step Expression) (turns : Nat) (body : List Expression) :
    Step (Turn (List Expression) (List Expression)) := do
  match ← peek with
  | none => return .done body
  | some lexeme =>
      if lexeme.kind = .rightBrace then
        advance
        return .done body
      else if lexeme.kind = .semicolon then
        advance
        return .again body
      else
        return .again (body ++ (← nextStatement expression turns))

def visibilityWord : Step Visibility := do
  match ← peek with
  | none => return .pub
  | some lexeme =>
      match if lexeme.kind = .identifier then Visibility.ofWord? lexeme.literal else none with
      | some visibility =>
          advance
          return visibility
      | none => return .pub

/-- The name of a function; a constructor is named by the word that announces it. -/
def nextFunctionName : Step Ident := do
  let lexeme? ← peek
  unless lexeme?.any (isWord "constructor") do
    advance
  expectName

def nextFunction (expression : Step Expression) (turns : Nat) : Step ContractFunction := do
  let name ← nextFunctionName
  let _ ← expect .leftParen
  let _ ← expect .rightParen
  let visibility ← visibilityWord
  let _ ← expect .leftBrace
  let body ← loop (bodyTurn expression turns) turns []
  return ⟨name, visibility, body⟩

def headerTurn (type : String) (seen : Option Visibility × Bool) :
    Step (Turn (Option Visibility × Bool) Header) := do
  match ← peek with
  | none => refuse (.unterminatedDeclaration type)
  | some lexeme =>
      if lexeme.kind = .identifier then
        if lexeme.literal = "constant" then
          advance
          return .again (seen.1, true)
        else
          match Visibility.ofWord? lexeme.literal with
          | some stated =>
              advance
              return .again (some stated, seen.2)
          | none => return .done ⟨seen.1, seen.2, ← expectName⟩
      else
        advance
        return .again seen

def nextVariable (expression : Step Expression) (turns : Nat) : Step StateVariable := do
  let type ← expectName
  let header ← loop (headerTurn type.name) turns (none, false)
  let _ ← expect .assign
  let value ← expression
  let _ ← expect .semicolon
  return ⟨type, header.visibility, header.isConstant, header.name, value⟩

/-! ## Programs -/

def baseTurn (bases : List Ident) : Step (Turn (List Ident) (List Ident)) := do
  let base ← expectName
  match ← peek with
  | none => return .done (bases ++ [base])
  | some lexeme =>
      if lexeme.kind = .comma then
        advance
        return .again (bases ++ [base])
      else
        return .done (bases ++ [base])

def memberTurn (expression : Step Expression) (turns : Nat) (members : List Member) :
    Step (Turn (List Member) (List Member)) := do
  match ← peek with
  | none => return .done members
  | some lexeme =>
      if lexeme.kind = .rightBrace then
        advance
        return .done members
      else if isWord "constructor" lexeme || isWord "function" lexeme then
        return .again (members ++ [.function (← nextFunction expression turns)])
      else if lexeme.kind = .identifier then
        return .again (members ++ [.stateVariable (← nextVariable expression turns)])
      else
        advance
        return .again members

def inheritance (turns : Nat) : Step (List Ident) := do
  match ← peek with
  | none => return []
  | some lexeme =>
      if isWord "is" lexeme then
        advance
        loop baseTurn turns []
      else
        return []

def nextContract (expression : Step Expression) (turns : Nat) : Step Contract := do
  advance
  let name ← expectName
  let bases ← inheritance turns
  let _ ← expect .leftBrace
  let members ← loop (memberTurn expression turns) turns []
  return contractOf name bases members

def pragmaTurn (name value : String) : Step (Turn String String) := do
  match ← peek with
  | none => refuse (.unterminatedPragma name)
  | some lexeme =>
      if lexeme.kind = .semicolon then
        return .done value
      else
        advance
        return .again (value ++ lexeme.literal)

def nextPragma (turns : Nat) : Step Pragma := do
  advance
  let name ← expectName
  let value ← loop (pragmaTurn name.name) turns ""
  advance
  return ⟨name, value⟩

def nextImport : Step Import := do
  advance
  match ← peek with
  | none => refuse .expectedImportPath
  | some lexeme =>
      advance
      return ⟨lexeme.literal⟩

def itemTurn (expression : Step Expression) (turns : Nat) (items : List Item) :
    Step (Turn (List Item) (List Item)) := do
  match ← peek with
  | none => return .done items
  | some lexeme =>
      if isWord "pragma" lexeme then
        return .again (items ++ [.pragma (← nextPragma turns)])
      else if isWord "import" lexeme then
        return .again (items ++ [.importing (← nextImport)])
      else if isWord "contract" lexeme then
        return .again (items ++ [.contract (← nextContract expression turns)])
      else
        advance
        return .again items

/-- A program, with a limit on nested calls and on the turns of every loop. -/
def wholeProgram (limit : Nat) : Step Program := do
  return programOf (← loop (itemTurn (routines limit).expression limit) limit [])

end ContractLens.Grammar
