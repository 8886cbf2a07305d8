/-!
# Lexemes and tokens

A lexeme is a piece of text that belongs together: a name, a number, a string, an
operator, a mark, or one character that is none of these.  A token is what a
scan hands out: a lexeme, or the end of the input.
-/

namespace ContractLens

inductive Kind where
  | identifier
  | integer
  | string
  | add
  | multiply
  | power
  | assign
  | equal
  | xor
  | leftParen
  | rightParen
  | leftBrace
  | rightBrace
  | leftBracket
  | rightBracket
  | semicolon
  | period
  | comma
  | illegal
  deriving DecidableEq, Repr

namespace Kind

/-- The name of a kind in a table of tokens. -/
def name : Kind → String
  | identifier => "IDENT"
  | integer => "INT"
  | string => "STRING"
  | add => "ADD"
  | multiply => "MUL"
  | power => "POW"
  | assign => "ASSIGN"
  | equal => "EQ"
  | xor => "XOR"
  | leftParen => "LPAREN"
  | rightParen => "RPAREN"
  | leftBrace => "LBRACE"
  | rightBrace => "RBRACE"
  | leftBracket => "LBRACK"
  | rightBracket => "RBRACK"
  | semicolon => "SEMICOLON"
  | period => "PERIOD"
  | comma => "COMMA"
  | illegal => "ILLEGAL"

/-- The wording of a kind in a message: a mark stands for itself. -/
def display : Kind → String
  | identifier => "identifier"
  | integer => "integer"
  | string => "string"
  | add => "+"
  | multiply => "*"
  | power => "**"
  | assign => "="
  | equal => "=="
  | xor => "^"
  | leftParen => "("
  | rightParen => ")"
  | leftBrace => "\x7b"
  | rightBrace => "\x7d"
  | leftBracket => "["
  | rightBracket => "]"
  | semicolon => ";"
  | period => "."
  | comma => ","
  | illegal => "illegal character"

end Kind

/-- A lexeme with the offset of its first character and its text. -/
structure Lexeme where
  pos : Nat
  kind : Kind
  literal : String
  deriving DecidableEq, Repr

def Lexeme.endPos (lexeme : Lexeme) : Nat :=
  lexeme.pos + lexeme.literal.length

/-- What a scan hands out: a lexeme, or the end of the input and its offset. -/
inductive Token where
  | lexeme (lexeme : Lexeme)
  | endOfInput (pos : Nat)
  deriving DecidableEq, Repr

namespace Token

/-- The offset of the first character; the end of the input has the offset behind the text. -/
def pos : Token → Nat
  | lexeme l => l.pos
  | endOfInput pos => pos

/-- The text of a token; the end of the input has none. -/
def literal : Token → String
  | lexeme l => l.literal
  | endOfInput _ => ""

def name : Token → String
  | lexeme l => l.kind.name
  | endOfInput _ => "EOF"

def display : Token → String
  | lexeme l => l.kind.display
  | endOfInput _ => "EOF"

def hasKind (token : Token) (kind : Kind) : Bool :=
  match token with
  | lexeme l => l.kind == kind
  | endOfInput _ => false

end Token

end ContractLens
