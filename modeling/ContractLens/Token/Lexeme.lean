import ContractLens.Text.Letter
import ContractLens.Token.Basic
import ContractLens.Token.Gap

/-!
# Reading lexemes

A lexeme takes as many characters as its kind allows.  A text is read lexeme by
lexeme, each behind its gap; the tokens of a text are its lexemes and then the
end of the input.
-/

namespace ContractLens

namespace Lexeme

/-- A character that may begin a name. -/
def isNameStart (c : Char) : Bool :=
  Text.isLetter c || c == '_'

/-- A character that may continue a name. -/
def isNamePart (c : Char) : Bool :=
  isNameStart c || c.isDigit

/-- The kind of a character that is a mark on its own. -/
def mark? : Char → Option Kind
  | '+' => some .add
  | '*' => some .multiply
  | '=' => some .assign
  | '^' => some .xor
  | '(' => some .leftParen
  | ')' => some .rightParen
  | '{' => some .leftBrace
  | '}' => some .rightBrace
  | '[' => some .leftBracket
  | ']' => some .rightBracket
  | ';' => some .semicolon
  | '.' => some .period
  | ',' => some .comma
  | _ => none

/--
How far a string goes behind its opening quote: through the next quote, or to
the end of the text if there is none.
-/
def quotedLength (following : List Char) : Nat :=
  min following.length ((following.takeWhile (· != '"')).length + 1)

/--
The kind of the lexeme that begins with `c`, and how many of the characters
that follow belong to it.
-/
def extent (c : Char) (following : List Char) : Kind × Nat :=
  if isNameStart c then
    (.identifier, (following.takeWhile isNamePart).length)
  else if c.isDigit then
    (.integer, (following.takeWhile Char.isDigit).length)
  else if c == '"' then
    (.string, quotedLength following)
  else if c == '*' && following.head? == some '*' then
    (.power, 1)
  else if c == '=' && following.head? == some '=' then
    (.equal, 1)
  else
    ((mark? c).getD .illegal, 0)

/--
The lexeme behind the gap at the front of a text that begins at `offset`, and
the text that follows; nothing if only a gap is left.
-/
def next? (offset : Nat) (cs : List Char) : Option (Lexeme × List Char) :=
  match Gap.skip cs with
  | [] => none
  | c :: following =>
      let (kind, more) := extent c following
      some (⟨offset + Gap.length false cs, kind, String.ofList (c :: following.take more)⟩,
        following.drop more)

theorem length_lt_of_next? {offset : Nat} {cs rest : List Char} {lexeme : Lexeme}
    (read : next? offset cs = some (lexeme, rest)) : rest.length < cs.length := by
  unfold next? at read
  split at read
  · cases read
  · next c following skipped =>
      simp only [Option.some.injEq, Prod.mk.injEq] at read
      have whole := Gap.length_skip cs
      rw [skipped] at whole
      rw [← read.2, List.length_drop]
      simp only [List.length_cons] at whole
      omega

/-- The text is the gap, the lexeme and the text that follows, in this order. -/
theorem text_of_next? {offset : Nat} {cs rest : List Char} {lexeme : Lexeme}
    (read : next? offset cs = some (lexeme, rest)) :
    cs.take (Gap.length false cs) ++ lexeme.literal.toList ++ rest = cs := by
  unfold next? at read
  split at read
  · cases read
  · next c following skipped =>
      simp only [Option.some.injEq, Prod.mk.injEq] at read
      have whole := Gap.take_append_skip cs
      rw [skipped] at whole
      rw [← read.1, ← read.2, String.toList_ofList, List.append_assoc, List.cons_append,
        List.take_append_drop]
      exact whole

end Lexeme

/-- The lexemes of a text that begins at `offset`. -/
def lexemesFrom (offset : Nat) (cs : List Char) : List Lexeme :=
  match _read : Lexeme.next? offset cs with
  | none => []
  | some (lexeme, rest) => lexeme :: lexemesFrom lexeme.endPos rest
termination_by cs.length
decreasing_by exact Lexeme.length_lt_of_next? (by assumption)

def lexemesOf (text : String) : List Lexeme :=
  lexemesFrom 0 text.toList

/-- The tokens of a text: its lexemes, and the end of the input behind its last character. -/
def tokensOf (text : String) : List Token :=
  (lexemesOf text).map .lexeme ++ [.endOfInput text.length]

theorem lexemesFrom_of_none {offset : Nat} {cs : List Char}
    (read : Lexeme.next? offset cs = none) : lexemesFrom offset cs = [] := by
  rw [lexemesFrom]
  split
  · rfl
  · next other => cases read.symm.trans other

theorem lexemesFrom_nil (offset : Nat) : lexemesFrom offset [] = [] :=
  lexemesFrom_of_none rfl

theorem lexemesFrom_of_some {offset : Nat} {cs rest : List Char} {lexeme : Lexeme}
    (read : Lexeme.next? offset cs = some (lexeme, rest)) :
    lexemesFrom offset cs = lexeme :: lexemesFrom lexeme.endPos rest := by
  rw [lexemesFrom]
  split
  · next other => cases read.symm.trans other
  · next other =>
      cases read.symm.trans other
      rfl

end ContractLens
