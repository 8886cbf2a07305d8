import ContractLens.Proofs.Token.Order

/-!
# Symbols

A symbol is a lexeme without its place: a kind and a text.  The text of a mark is
fixed by its kind, so among the lexemes of a text a mark is known by its kind
alone.
-/

namespace ContractLens

/-- What a lexeme is, wherever it stands. -/
structure Symbol where
  kind : Kind
  literal : String
  deriving DecidableEq, Repr

def Symbol.mark (kind : Kind) : Symbol :=
  ⟨kind, kind.display⟩

def Symbol.word (literal : String) : Symbol :=
  ⟨.identifier, literal⟩

/-- A kind whose lexemes all have the same text. -/
def Kind.isMark : Kind → Bool
  | identifier | integer | string | illegal => false
  | _ => true

namespace Lexeme

def symbol (lexeme : Lexeme) : Symbol :=
  ⟨lexeme.kind, lexeme.literal⟩

/-- If the lexeme is a mark, its text is the mark. -/
def Faithful (lexeme : Lexeme) : Prop :=
  lexeme.kind.isMark = true → lexeme.literal = lexeme.kind.display

theorem Faithful.symbol_eq {lexeme : Lexeme} (faithful : lexeme.Faithful) {kind : Kind}
    (same : lexeme.kind = kind) (isMark : kind.isMark = true) :
    lexeme.symbol = Symbol.mark kind := by
  subst kind
  simp [symbol, Symbol.mark, faithful isMark]

theorem display_of_mark? {c : Char} {kind : Kind} (found : mark? c = some kind) :
    String.singleton c = kind.display := by
  unfold mark? at found
  split at found
  all_goals cases found
  all_goals rfl

theorem ofList_of_extent {c : Char} {following : List Char} {kind : Kind} {more : Nat}
    (taken : extent c following = (kind, more)) (isMark : kind.isMark = true) :
    String.ofList (c :: following.take more) = kind.display := by
  unfold extent at taken
  split at taken
  · cases taken
    cases isMark
  split at taken
  · cases taken
    cases isMark
  split at taken
  · cases taken
    cases isMark
  split at taken
  · next twice =>
      cases taken
      simp only [Bool.and_eq_true, beq_iff_eq, List.head?_eq_some_iff] at twice
      obtain ⟨rfl, behind, rfl⟩ := twice
      rfl
  split at taken
  · next twice =>
      cases taken
      simp only [Bool.and_eq_true, beq_iff_eq, List.head?_eq_some_iff] at twice
      obtain ⟨rfl, behind, rfl⟩ := twice
      rfl
  · cases found : mark? c with
    | none =>
        rw [found] at taken
        cases taken
        cases isMark
    | some mark =>
        rw [found] at taken
        cases taken
        exact display_of_mark? found

theorem faithful_of_next? {offset : Nat} {cs rest : List Char} {lexeme : Lexeme}
    (read : next? offset cs = some (lexeme, rest)) : lexeme.Faithful := by
  obtain ⟨c, following, _, rfl, _⟩ := exists_of_next? read
  exact ofList_of_extent rfl

end Lexeme

theorem faithful_of_mem_lexemesFrom {offset : Nat} {cs : List Char} :
    ∀ lexeme ∈ lexemesFrom offset cs, lexeme.Faithful :=
  forall_mem_lexemesFrom Lexeme.faithful_of_next? offset cs

end ContractLens
