import ContractLens.Grammar.Expression

/-!
# Reading the members of a contract

A state variable is a type, modifiers and a name in any number of words, and an
initial value.  A function has no parameters, at most one visibility word, and
a body of statements.  A statement is one expression or several side by side,
and a semicolon; semicolons of their own are passed over.  A body ends at its
closing brace or at the end of the input.
-/

namespace ContractLens.Grammar

/-! ## Bodies -/

/-- No expression begins here: a statement or a body ends, or the input does. -/
def endsStatement : List Lexeme → Bool
  | [] => true
  | lexeme :: _ => lexeme.kind = .semicolon || lexeme.kind = .rightBrace

def readStatement (lexemes : List Lexeme) : Outcome (List Expression) lexemes.length :=
  (readExpression lexemes).andThen fun first rest _ =>
    if endsStatement rest then
      (accept .semicolon rest).map fun _ => [first]
    else
      (readStatement rest).map (first :: ·)
termination_by lexemes.length

/-- Read statements up to and including the closing brace, or up to the end. -/
def readBody (lexemes : List Lexeme) : Outcome (List Expression) (lexemes.length + 1) :=
  match lexemes with
  | [] => .stay [] []
  | lexeme :: rest =>
      if lexeme.kind = .rightBrace then
        (Outcome.take [] lexeme rest).relax
      else if lexeme.kind = .semicolon then
        (readBody rest).relax
      else
        ((readStatement (lexeme :: rest)).andMaybe fun statement middle _ =>
          (readBody middle).map (statement ++ ·)).relax
termination_by lexemes.length
decreasing_by
  all_goals
    try simp only [List.length_cons] at *
    omega

/-! ## Functions -/

/-- Read a visibility word if one stands here; without one a function is public. -/
def readVisibility : (lexemes : List Lexeme) → Outcome Visibility (lexemes.length + 1)
  | [] => .stay .pub []
  | lexeme :: rest =>
      match if lexeme.kind = .identifier then Visibility.ofWord? lexeme.literal else none with
      | some visibility => (Outcome.take visibility lexeme rest).relax
      | none => .stay .pub (lexeme :: rest)

/-- Read the name of a function; a constructor is named by the word that announces it. -/
def readFunctionName (keyword : Lexeme) (lexemes : List Lexeme) :
    Outcome Ident (lexemes.length + 1) :=
  if isWord "constructor" keyword then
    .stay (nameOf keyword) lexemes
  else
    (acceptName lexemes).relax

/-- Read a function behind the word that announces it. -/
def readFunction (keyword : Lexeme) (lexemes : List Lexeme) :
    Outcome ContractFunction (lexemes.length + 1) :=
  (readFunctionName keyword lexemes).andThen fun name afterName _ =>
    (accept .leftParen afterName).andThen fun _ inside _ =>
      (accept .rightParen inside).andMaybe fun _ afterParens _ =>
        (readVisibility afterParens).andThen fun visibility afterWord _ =>
          (accept .leftBrace afterWord).andMaybe fun _ bodyLexemes _ =>
            (readBody bodyLexemes).map fun body => ⟨name, visibility, body⟩

/-! ## State variables -/

/-- What stands between the type of a state variable and its value. -/
structure Header where
  visibility : Option Visibility
  isConstant : Bool
  name : Ident
  deriving DecidableEq, Repr

/--
Read words up to the name of a state variable.  Of several visibilities the
last one counts, and what is no word is passed over.
-/
def readHeader (type : String) (visibility : Option Visibility) (isConstant : Bool) :
    (lexemes : List Lexeme) → Outcome Header lexemes.length
  | [] => .refused (.unterminatedDeclaration type) []
  | lexeme :: rest =>
      if lexeme.kind = .identifier then
        if lexeme.literal = "constant" then
          (readHeader type visibility true rest).relax
        else
          match Visibility.ofWord? lexeme.literal with
          | some stated => (readHeader type (some stated) isConstant rest).relax
          | none => .take ⟨visibility, isConstant, nameOf lexeme⟩ lexeme rest
      else
        (readHeader type visibility isConstant rest).relax

/-- Read a state variable behind its type. -/
def readVariable (type : Ident) (lexemes : List Lexeme) :
    Outcome StateVariable lexemes.length :=
  (readHeader type.name none false lexemes).andThen fun header afterName _ =>
    (accept .assign afterName).andThen fun _ valueLexemes _ =>
      (readExpression valueLexemes).andThen fun value afterValue _ =>
        (accept .semicolon afterValue).map fun _ =>
          ⟨type, header.visibility, header.isConstant, header.name, value⟩

end ContractLens.Grammar
