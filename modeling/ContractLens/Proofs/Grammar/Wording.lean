import ContractLens.Proofs.Grammar.ProgramDerivation
import ContractLens.Proofs.Syntax.Sign

/-!
# Wordings

A wording is what an author may write, whatever the gaps between the lexemes.
It fixes the symbols of a source, and with the offsets of the lexemes also what
the source states.  Here is no reader and no lookahead: what a part of a wording
states is read off its shape.

The offsets are given as a list that begins with the first lexeme of the part;
it may go on behind the part.
-/

namespace ContractLens

open Grammar

/-! ## Expressions -/

/-- What a phrase means: expressions for arguments, and one expression otherwise. -/
abbrev Grammar.Phrase.Meaning : Phrase → Type
  | arguments => List Expression
  | operand | primary | expression => Expression

def Grammar.Phrase.expressions : (phrase : Phrase) → phrase.Meaning → List Expression
  | arguments, meaning => meaning
  | operand, meaning | primary, meaning | expression, meaning => [meaning]

/--
The wording of a phrase.  Arguments are primaries with commas between them, and a
comma may follow the last one.
-/
inductive Wording : Phrase → Type where
  | ident (literal : String) : Wording .operand
  | integer (literal : String) : Wording .operand
  | string (literal : String) : Wording .operand
  | paren (inner : Wording .expression) : Wording .operand
  | bare (operand : Wording .operand) : Wording .primary
  | selector (base : Wording .operand) (member : String) : Wording .primary
  | call (callee : Wording .operand) (arguments : Wording .arguments) : Wording .primary
  | index (base : Wording .operand) (subscript : Wording .expression) : Wording .primary
  | noArgument : Wording .arguments
  | lastArgument (only : Wording .primary) : Wording .arguments
  | argument (first : Wording .primary) (others : Wording .arguments) : Wording .arguments
  | primary (only : Wording .primary) : Wording .expression
  | binary (left : Wording .primary) (operator : Operator) (right : Wording .expression) :
      Wording .expression

namespace Wording

/-- The symbols with which a phrase is written. -/
def symbols {phrase : Phrase} : Wording phrase → List Symbol
  | ident literal => [.word literal]
  | integer literal => [⟨.integer, literal⟩]
  | string literal => [⟨.string, literal⟩]
  | paren inner => .mark .leftParen :: (inner.symbols ++ [.mark .rightParen])
  | bare operand => operand.symbols
  | selector base member => base.symbols ++ [.mark .period, .word member]
  | call callee arguments =>
      callee.symbols ++ .mark .leftParen :: (arguments.symbols ++ [.mark .rightParen])
  | index base subscript =>
      base.symbols ++ .mark .leftBracket :: (subscript.symbols ++ [.mark .rightBracket])
  | noArgument => []
  | lastArgument only => only.symbols
  | argument first others => first.symbols ++ .mark .comma :: others.symbols
  | primary only => only.symbols
  | binary left operator right => left.symbols ++ .mark operator.kind :: right.symbols

/-- The number of lexemes of a phrase. -/
def size {phrase : Phrase} (wording : Wording phrase) : Nat :=
  wording.symbols.length

/-- What a phrase means if its lexemes stand at the given offsets. -/
def tree {phrase : Phrase} : Wording phrase → List Nat → phrase.Meaning
  | ident literal, places => Expression.ident ⟨literal, places.getD 0 0⟩
  | integer literal, places => Expression.literal .integer literal (places.getD 0 0)
  | string literal, places => Expression.literal .string literal (places.getD 0 0)
  | paren inner, places => Expression.paren (places.getD 0 0) (inner.tree (places.drop 1))
  | bare operand, places => operand.tree places
  | selector base member, places =>
      Expression.selector (base.tree places) ⟨member, (places.drop (base.size + 1)).getD 0 0⟩
  | call callee arguments, places =>
      Expression.call (callee.tree places) (arguments.tree (places.drop (callee.size + 1)))
        (places.getD callee.size 0) ((places.drop (callee.size + 1)).getD arguments.size 0)
  | index base subscript, places =>
      Expression.index (base.tree places) (subscript.tree (places.drop (base.size + 1)))
  | noArgument, _ => ([] : List Expression)
  | lastArgument only, places => ([only.tree places] : List Expression)
  | argument first others, places =>
      (first.tree places :: others.tree (places.drop (first.size + 1)) : List Expression)
  | primary only, places => only.tree places
  | binary left operator right, places =>
      Expression.binary (left.tree places) operator (places.getD left.size 0)
        (right.tree (places.drop (left.size + 1)))

/-! ## Parts in sequence -/

/-- What parts state that are written one behind the other. -/
def inSequence {Part Tree : Type} (symbols : Part → List Symbol)
    (trees : Part → List Nat → List Tree) : List Part → List Nat → List Tree
  | [], _ => []
  | part :: parts, places =>
      trees part places ++ inSequence symbols trees parts (places.drop (symbols part).length)

/-! ## Members -/

/--
The wording of a statement: expressions and a semicolon, or the semicolon alone.
Behind another expression none begins with a parenthesis.
-/
structure Statement where
  expressions : List (Wording .expression)
  noParen : ∀ expression ∈ expressions.tail,
    expression.symbols.head? ≠ some (.mark .leftParen)

def Statement.symbols (statement : Statement) : List Symbol :=
  statement.expressions.flatMap Wording.symbols ++ [.mark .semicolon]

def Statement.tree (statement : Statement) (places : List Nat) : List Expression :=
  inSequence Wording.symbols (fun expression places => [expression.tree places])
    statement.expressions places

/-- A word between the type and the name of a state variable. -/
inductive HeaderWord where
  | constant
  | visibility (stated : Visibility)
  deriving DecidableEq, Repr

namespace HeaderWord

def symbol : HeaderWord → Symbol
  | constant => .word "constant"
  | visibility stated => .word stated.word

def visibility? : HeaderWord → Option Visibility
  | constant => none
  | visibility stated => some stated

end HeaderWord

/-- The wording of a state variable; type and name are no words that mean something else. -/
structure StateVariable where
  type : String
  noFunction : type ≠ "constructor" ∧ type ≠ "function"
  words : List HeaderWord
  name : String
  noWord : name ≠ "constant" ∧ Visibility.ofWord? name = none
  value : Wording .expression

namespace StateVariable

def symbols (declaration : StateVariable) : List Symbol :=
  .word declaration.type :: (declaration.words.map HeaderWord.symbol ++
    .word declaration.name :: .mark .assign :: (declaration.value.symbols ++ [.mark .semicolon]))

def tree (declaration : StateVariable) (places : List Nat) : ContractLens.StateVariable where
  type := ⟨declaration.type, places.getD 0 0⟩
  visibility := (declaration.words.filterMap HeaderWord.visibility?).getLast?
  isConstant := declaration.words.contains .constant
  name := ⟨declaration.name, places.getD (declaration.words.length + 1) 0⟩
  value := declaration.value.tree ((places.drop (declaration.words.length + 2)).drop 1)

end StateVariable

/-- The wording of a function, or of a constructor if it has no name. -/
structure Function where
  name? : Option String
  visibility? : Option Visibility
  body : List Statement

namespace Function

/-- The symbols up to the name of a function. -/
def heading (function : Function) : List Symbol :=
  match function.name? with
  | some name => [.word "function", .word name]
  | none => [.word "constructor"]

/-- The symbols between the parentheses and the body of a function. -/
def words (function : Function) : List Symbol :=
  function.visibility?.toList.map fun stated => .word stated.word

/-- The symbols behind the name of a function. -/
def ending (function : Function) : List Symbol :=
  .mark .leftParen :: .mark .rightParen :: (function.words ++
    .mark .leftBrace :: (function.body.flatMap Statement.symbols ++ [.mark .rightBrace]))

def symbols (function : Function) : List Symbol :=
  function.heading ++ function.ending

def tree (function : Function) (places : List Nat) : ContractFunction where
  name := ⟨function.name?.getD "constructor", places.getD (function.heading.length - 1) 0⟩
  visibility := function.visibility?.getD .pub
  body := inSequence Statement.symbols Statement.tree function.body
    ((places.drop function.heading.length).drop (function.words.length + 3))

end Function

/-- The wording of a member of a contract, or a symbol that is passed over. -/
inductive Member where
  | stray (symbol : Symbol) (other : symbol.kind ≠ .identifier ∧ symbol.kind ≠ .rightBrace)
  | stateVariable (declaration : StateVariable)
  | function (routine : Function)

namespace Member

def symbols : Member → List Symbol
  | stray symbol _ => [symbol]
  | stateVariable declaration => declaration.symbols
  | function routine => routine.symbols

/-- The member, if it is one, whose lexemes stand at the given offsets. -/
def tree : Member → List Nat → List Grammar.Member
  | stray _ _, _ => []
  | stateVariable declaration, places => [.stateVariable (declaration.tree places)]
  | function routine, places => [.function (routine.tree places)]

end Member

/-! ## Items -/

/-- The wording of a contract behind the word that announces it. -/
structure Contract where
  name : String
  bases : List String
  members : List Member

namespace Contract

def inheritance (contract : Contract) : List Symbol :=
  match contract.bases with
  | [] => []
  | first :: others =>
      .word "is" :: .word first :: others.flatMap fun other => [.mark .comma, .word other]

def symbols (contract : Contract) : List Symbol :=
  .word contract.name :: (contract.inheritance ++ .mark .leftBrace ::
    (contract.members.flatMap Member.symbols ++ [.mark .rightBrace]))

/-- The contract whose lexemes stand at the given offsets; every other one names a base. -/
def tree (contract : Contract) (places : List Nat) : ContractLens.Contract :=
  let members := inSequence Member.symbols Member.tree contract.members
    (places.drop (contract.inheritance.length + 2))
  { name := ⟨contract.name, places.getD 0 0⟩
    bases := contract.bases.zipIdx.map fun (base, number) =>
      ⟨base, places.getD (2 * number + 2) 0⟩
    stateVariables := members.filterMap Grammar.Member.stateVariable?
    functions := members.filterMap Grammar.Member.function? }

end Contract

/-- The wording of an item of a program, or a symbol that is passed over. -/
inductive Item where
  | stray (symbol : Symbol)
      (other : ∀ word ∈ ["pragma", "import", "contract"], symbol ≠ .word word)
  | pragma (name : String) (values : List Symbol)
      (noStop : ∀ value ∈ values, value.kind ≠ .semicolon)
  | importing (path : Symbol)
  | contract (declaration : Contract)

namespace Item

def symbols : Item → List Symbol
  | stray symbol _ => [symbol]
  | pragma name values _ => .word "pragma" :: .word name :: (values ++ [.mark .semicolon])
  | importing path => [.word "import", path]
  | contract declaration => .word "contract" :: declaration.symbols

def tree : Item → List Nat → List Grammar.Item
  | stray _ _, _ => []
  | pragma name values _, places =>
      [.pragma ⟨⟨name, places.getD 1 0⟩, String.join (values.map Symbol.literal)⟩]
  | importing path, _ => [.importing ⟨path.literal⟩]
  | contract declaration, places => [.contract (declaration.tree (places.drop 1))]

end Item

/--
The program whose lexemes stand at the given offsets.  Of several pragmas the
last one counts.
-/
def program (items : List Item) (places : List Nat) : Program :=
  let stated := inSequence Item.symbols Item.tree items places
  { pragma? := (stated.filterMap Grammar.Item.pragma?).getLast?
    imports := stated.filterMap Grammar.Item.import?
    contracts := stated.filterMap Grammar.Item.contract? }

end Wording

end ContractLens
