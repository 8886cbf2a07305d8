import ContractLens.Proofs.Token.Pattern

/-!
# Complete lexemes

A string that is not closed goes on to the end of the text.  So a lexeme with another
one behind it is complete: its characters have the form of its kind, and if it is a
string, its closing quote is among them.
-/

namespace ContractLens

namespace Lexeme

/-- The lexeme is written as its kind wants it, a string with both of its quotes. -/
structure Complete (lexeme : Lexeme) : Prop where
  formed : lexeme.kind.Matches lexeme.literal.toList
  closed : lexeme.kind = .string →
    ∃ body, '"' ∉ body ∧ lexeme.literal.toList = '"' :: (body ++ ['"'])

theorem formed_of_next? {offset : Nat} {cs rest : List Char} {lexeme : Lexeme}
    (read : next? offset cs = some (lexeme, rest)) :
    lexeme.kind.Matches lexeme.literal.toList := by
  obtain ⟨c, following, _, rfl, _⟩ := exists_of_next? read
  rw [String.toList_ofList]
  exact matches_of_extent rfl

theorem eq_quote_of_extent {c : Char} {following : List Char}
    (string : (extent c following).1 = .string) : c = '"' := by
  have formed : (extent c following).1.Matches (c :: following.take (extent c following).2) :=
    matches_of_extent rfl
  rw [string] at formed
  obtain ⟨body, _, whole | whole⟩ := formed
  · exact (List.cons.inj whole).1
  · exact (List.cons.inj whole).1

/-- A string is closed if any text is left behind it. -/
theorem closed_of_next? {offset : Nat} {cs rest : List Char} {lexeme : Lexeme}
    (read : next? offset cs = some (lexeme, rest)) (goesOn : rest ≠ [])
    (string : lexeme.kind = .string) :
    ∃ body, '"' ∉ body ∧ lexeme.literal.toList = '"' :: (body ++ ['"']) := by
  obtain ⟨c, following, _, rfl, rfl⟩ := exists_of_next? read
  obtain rfl := eq_quote_of_extent string
  rw [extent_quote] at goesOn ⊢
  rw [String.toList_ofList]
  rcases take_quotedLength following with ⟨_, noQuote⟩ | ⟨closed, _⟩
  · refine absurd ?_ goesOn
    rw [(quotedLength_of_not_mem noQuote).1, List.drop_length]
  · refine ⟨following.takeWhile (· != '"'), fun quote => ?_, congrArg _ closed⟩
    simpa using List.mem_takeWhile_imp quote

theorem complete_of_next? {offset : Nat} {cs rest : List Char} {lexeme : Lexeme}
    (read : next? offset cs = some (lexeme, rest)) (goesOn : rest ≠ []) : lexeme.Complete :=
  ⟨formed_of_next? read, closed_of_next? read goesOn⟩

/-- The lexeme stands among the lexemes, and not as the last one. -/
def StandsBefore (lexeme : Lexeme) (lexemes : List Lexeme) : Prop :=
  ∃ before next after, lexemes = before ++ lexeme :: next :: after

theorem StandsBefore.behind {lexeme : Lexeme} {lexemes : List Lexeme}
    (stands : lexeme.StandsBefore lexemes) (front : List Lexeme) :
    lexeme.StandsBefore (front ++ lexemes) := by
  obtain ⟨before, next, after, rfl⟩ := stands
  exact ⟨front ++ before, next, after, by rw [List.append_assoc]⟩

theorem standsBefore_of_mem {lexeme next : Lexeme} {lexemes after : List Lexeme}
    (inside : lexeme ∈ lexemes) : lexeme.StandsBefore (lexemes ++ next :: after) := by
  obtain ⟨before, others, rfl⟩ := List.append_of_mem inside
  cases others with
  | nil => exact ⟨before, next, after, by simp⟩
  | cons other others => exact ⟨before, other, others ++ next :: after, by simp⟩

/-- Every lexeme of a text but the last one is complete. -/
theorem StandsBefore.complete {lexeme : Lexeme} {offset : Nat} {cs : List Char}
    (stands : lexeme.StandsBefore (lexemesFrom offset cs)) : lexeme.Complete := by
  obtain ⟨before, next, after, whole⟩ := stands
  induction offset, cs using lexemesFrom.induct generalizing before with
  | case1 offset cs none =>
      rw [lexemesFrom_of_none none] at whole
      simp at whole
  | case2 offset cs first rest read ih =>
      rw [lexemesFrom_of_some read] at whole
      cases before with
      | nil =>
          obtain ⟨rfl, others⟩ := List.cons.inj whole
          refine complete_of_next? read ?_
          rintro rfl
          rw [lexemesFrom_nil] at others
          cases others
      | cons _ before => exact ih before (List.cons.inj whole).2

end Lexeme

theorem complete_of_mem_lexemesFrom {offset : Nat} {cs : List Char} {lexeme : Lexeme}
    (inside : lexeme ∈ lexemesFrom offset cs) (noString : lexeme.kind ≠ .string) :
    lexeme.Complete where
  formed := forall_mem_lexemesFrom Lexeme.formed_of_next? offset cs lexeme inside
  closed string := absurd string noString

end ContractLens
