import ContractLens.Proofs.Token.Layout
import ContractLens.Proofs.Token.Spacing

/-!
# Other separators

The lexemes of a text may be set apart in any way: by blanks and by comments that are
closed, as long as a blank comes first, lest a comment is taken for a lexeme.  What is read
then are the same symbols in the same order.  A string that is not closed is no exception,
for it is always the last lexeme of its text and nothing is written behind it.
-/

namespace ContractLens

/-- A separator is a blank, and then any number of blanks and of closed comments. -/
inductive IsSeparator : List Char → Prop where
  | intro {c : Char} {rest : List Char} :
      Gap.isBlank c = true → ClosedGap rest → IsSeparator (c :: rest)

/-- The symbols one behind the other, with a separator between any two of them. -/
inductive Respaced : List Symbol → List Char → Prop where
  | nil : Respaced [] []
  | last (symbol : Symbol) : Respaced [symbol] symbol.literal.toList
  | more {symbol next : Symbol} {symbols : List Symbol} {separator cs : List Char} :
      IsSeparator separator → Respaced (next :: symbols) cs →
      Respaced (symbol :: next :: symbols) (symbol.literal.toList ++ (separator ++ cs))

/-- The lexemes of a text are read back with other separators between them. -/
theorem Respaced.symbols {offset : Nat} {cs other : List Char}
    (respaced : Respaced ((lexemesFrom offset cs).map Lexeme.symbol) other) (place : Nat) :
    (lexemesFrom place other).map Lexeme.symbol =
      (lexemesFrom offset cs).map Lexeme.symbol := by
  induction offset, cs using lexemesFrom.induct generalizing other place with
  | case1 offset cs none =>
      rw [lexemesFrom_of_none none] at respaced ⊢
      cases respaced
      rw [lexemesFrom_nil]
  | case2 offset cs first rest read ih =>
      rw [lexemesFrom_of_some read] at respaced ⊢
      cases behind : lexemesFrom first.endPos rest with
      | nil =>
          -- Nothing is written behind the last lexeme, so it may be a string that is not closed.
          rw [behind] at respaced
          cases respaced
          have again : Lexeme.next? place (first.symbol.literal.toList ++ []) = _ :=
            Lexeme.next?_of_next? read (by simp) (by simp) place
          rw [List.append_nil] at again
          rw [lexemesFrom_of_some again, lexemesFrom_nil]
          rfl
      | cons second others =>
          rw [behind] at respaced ih
          cases respaced with
          | @more _ _ _ _ cs separates respaced =>
              obtain @⟨c, gap, blank, closed⟩ := separates
              have goesOn : rest ≠ [] := by
                rintro rfl
                rw [lexemesFrom_nil] at behind
                cases behind
              have again :
                  Lexeme.next? place (first.symbol.literal.toList ++ (c :: gap ++ cs)) = _ :=
                Lexeme.next?_of_next? read (by simpa using blank) (fun _ => goesOn) place
              have passed := (ClosedGap.blank blank closed).lexemesFrom_append
              rw [lexemesFrom_of_some again, List.map_cons, passed, ih respaced]
              rfl

/-- A text with the lexemes of another one and other separators has the same tokens. -/
theorem symbols_tokensOf_of_respaced {text other : String}
    (respaced : Respaced ((lexemesOf text).map Lexeme.symbol) other.toList) :
    (tokensOf other).map Token.symbol? = (tokensOf text).map Token.symbol? := by
  have same : (lexemesOf other).map Lexeme.symbol = (lexemesOf text).map Lexeme.symbol :=
    respaced.symbols 0
  have ofLexemes : ∀ lexemes : List Lexeme, (lexemes.map Token.lexeme).map Token.symbol? =
      (lexemes.map Lexeme.symbol).map some := by simp [Token.symbol?]
  simp only [tokensOf, List.map_append, ofLexemes, same]
  rfl

/-- Comments are set between the lexemes of a text, the last of which is an open string. -/
theorem symbols_tokensOf_open_string :
    Respaced ((lexemesOf "x=\"a//b\"/\"open").map Lexeme.symbol)
        "x\t=\n// none\n \"a//b\" / // a slash\r\n\"open".toList ∧
      (tokensOf "x\t=\n// none\n \"a//b\" / // a slash\r\n\"open").map Token.symbol? =
        (tokensOf "x=\"a//b\"/\"open").map Token.symbol? := by
  have symbols : (lexemesOf "x=\"a//b\"/\"open").map Lexeme.symbol =
      [⟨.identifier, "x"⟩, ⟨.assign, "="⟩, ⟨.string, "\"a//b\""⟩, ⟨.illegal, "/"⟩,
        ⟨.string, "\"open"⟩] := by
    decide +kernel
  have text : "x\t=\n// none\n \"a//b\" / // a slash\r\n\"open".toList =
      "x".toList ++ (['\t'] ++ ("=".toList ++ ('\n' :: ('/' :: '/' :: " none".toList ++
        '\n' :: [' ']) ++ ("\"a//b\"".toList ++ ([' '] ++ ("/".toList ++ (' ' ::
          ('/' :: '/' :: " a slash\r".toList ++ '\n' :: []) ++ "\"open".toList))))))) := by
    decide +kernel
  have respaced : Respaced ((lexemesOf "x=\"a//b\"/\"open").map Lexeme.symbol)
      "x\t=\n// none\n \"a//b\" / // a slash\r\n\"open".toList := by
    rw [symbols, text]
    refine .more (.intro rfl .none) (.more (.intro rfl ?_) (.more (.intro rfl .none)
      (.more (.intro rfl ?_) (.last _))))
    · exact .comment (by decide +kernel) (.blank rfl .none)
    · exact .comment (by decide +kernel) .none
  exact ⟨respaced, symbols_tokensOf_of_respaced respaced⟩

end ContractLens
