import ContractLens.Proofs.Token.Gap
import ContractLens.Proofs.Token.Pattern

/-!
# Tokenization

A text is gaps and lexemes in turn, and there is one way only to see it so when every
lexeme is as long as the patterns allow.  The tokens of a text are these lexemes and the
end of the input.
-/

namespace ContractLens

/-! ## One lexeme -/

/--
In front of the text behind it, `literal` is a lexeme of the kind: it matches the pattern of
the kind, and nothing longer matches any pattern.  Where it is illegal, nothing does at all.
-/
structure LongestMatch (kind : Kind) (literal behind : List Char) : Prop where
  nonempty : literal ≠ []
  matched : kind.Matches literal
  longest : ∀ longer, longer <+: literal ++ behind → literal.length < longer.length →
    ¬ Matchable longer
  unmatched : kind = .illegal → ∀ front, front <+: literal ++ behind → ¬ Matchable front

theorem Kind.eq_of_matches {kind other : Kind} {cs : List Char} (known : kind ≠ .illegal)
    (otherKnown : other ≠ .illegal) (first : kind.Matches cs) (second : other.Matches cs) :
    kind = other := by
  obtain ⟨c, more, rfl⟩ := List.exists_cons_of_ne_nil first.ne_nil
  have taken := Lexeme.extent_eq_of_matches known first
  rw [Lexeme.extent_eq_of_matches otherKnown second] at taken
  exact (Prod.mk.inj taken).1.symm

namespace LongestMatch

variable {kind other : Kind} {literal otherLiteral behind otherBehind : List Char}

/-- A lexeme that is not illegal is at least as long as any other at the same place. -/
theorem length_le (first : LongestMatch kind literal behind)
    (second : LongestMatch other otherLiteral otherBehind)
    (same : literal ++ behind = otherLiteral ++ otherBehind) (known : other ≠ .illegal) :
    otherLiteral.length ≤ literal.length ∧ kind ≠ .illegal := by
  have front : otherLiteral <+: literal ++ behind := same ▸ List.prefix_append _ _
  have matchable : Matchable otherLiteral := .inl ⟨other, known, second.matched⟩
  constructor
  · by_contra longer
    exact first.longest otherLiteral front (Nat.lt_of_not_le longer) matchable
  · exact fun illegal => first.unmatched illegal otherLiteral front matchable

theorem unique (first : LongestMatch kind literal behind)
    (second : LongestMatch other otherLiteral otherBehind)
    (same : literal ++ behind = otherLiteral ++ otherBehind) :
    kind = other ∧ literal = otherLiteral ∧ behind = otherBehind := by
  by_cases known : other = .illegal
  · have illegal : kind = .illegal := by
      by_contra knownFirst
      exact (second.length_le first same.symm knownFirst).2 known
    subst illegal known
    obtain ⟨c, rfl⟩ := first.matched
    obtain ⟨d, rfl⟩ := second.matched
    obtain ⟨rfl, rfl⟩ := List.cons.inj same
    exact ⟨rfl, rfl, rfl⟩
  · obtain ⟨atMost, knownFirst⟩ := first.length_le second same known
    obtain ⟨atLeast, _⟩ := second.length_le first same.symm knownFirst
    obtain ⟨rfl, rfl⟩ := List.append_inj same (Nat.le_antisymm atLeast atMost)
    exact ⟨Kind.eq_of_matches knownFirst known first.matched second.matched, rfl, rfl⟩

end LongestMatch

theorem Gap.not_matches {c : Char} {following more : List Char}
    (ends : extend? false c following.head? = none) (front : more <+: following) :
    ¬ Gap.Matches (c :: more) := by
  obtain ⟨noBlank, noComment⟩ := extend?_eq_none.mp ends
  rintro (⟨_, blanks⟩ | ⟨body, whole, _⟩)
  · exact absurd (blanks c List.mem_cons_self) (by simp [noBlank])
  · cases whole
    obtain ⟨behind, rfl⟩ := front
    exact noComment rfl rfl

theorem Lexeme.length_le_of_matchable {c : Char} {following front : List Char}
    (ends : Gap.extend? false c following.head? = none) (first : front <+: c :: following)
    (matchable : Matchable front) :
    front.length ≤ (extent c following).2 + 1 ∧ (extent c following).1 ≠ .illegal := by
  rcases matchable with ⟨kind, known, matched⟩ | gap
  · obtain ⟨d, more, rfl⟩ := List.exists_cons_of_ne_nil matched.ne_nil
    obtain ⟨rfl, within⟩ := List.cons_prefix_cons.mp first
    -- What matches is the lexeme that begins here if the text ends behind it.
    have whole := extent_eq_of_matches known matched
    obtain ⟨shorter, illegal⟩ := extent_of_prefix (c := d) within
    rw [whole] at shorter illegal
    exact ⟨Nat.succ_le_succ shorter, fun same => known (illegal same)⟩
  · cases front with
    | nil => simp [Gap.Matches] at gap
    | cons d more =>
        obtain ⟨rfl, within⟩ := List.cons_prefix_cons.mp first
        exact absurd gap (Gap.not_matches ends within)

/-- Where no gap begins, the characters of a lexeme are the longest that match. -/
theorem longestMatch_of_extent {c : Char} {following : List Char}
    (ends : Gap.extend? false c following.head? = none) :
    LongestMatch (Lexeme.extent c following).1
      (c :: following.take (Lexeme.extent c following).2)
      (following.drop (Lexeme.extent c following).2) := by
  have text : c :: following.take (Lexeme.extent c following).2 ++
      following.drop (Lexeme.extent c following).2 = c :: following := by
    rw [List.cons_append, List.take_append_drop]
  refine ⟨List.cons_ne_nil _ _, Lexeme.matches_of_extent rfl, ?_, ?_⟩
  · intro longer first exceeds matchable
    rw [text] at first
    have atMost := (Lexeme.length_le_of_matchable ends first matchable).1
    have within : longer.length ≤ following.length + 1 := first.length_le
    rw [List.length_cons, List.length_take] at exceeds
    omega
  · intro illegal front first matchable
    rw [text] at first
    exact (Lexeme.length_le_of_matchable ends first matchable).2 illegal

theorem Lexeme.extent_of_gap {c : Char} (begins : Gap.isBlank c = true ∨ c = '/')
    (following : List Char) : extent c following = (.illegal, 0) := by
  obtain ⟨noName, noDigit, noQuote, noStar, noEquals, noMark⟩ := begins_no_lexeme begins
  simp [extent, noName, noDigit, noQuote, noStar, noEquals, noMark]

theorem LongestMatch.length_gap {kind : Kind} {literal behind : List Char}
    (lexeme : LongestMatch kind literal behind) : Gap.length false (literal ++ behind) = 0 := by
  obtain ⟨c, more, rfl⟩ := List.exists_cons_of_ne_nil lexeme.nonempty
  rw [List.cons_append, Gap.length_eq_zero, Gap.extend?_eq_none]
  have illegal : Gap.isBlank c = true ∨ c = '/' → kind = .illegal := by
    intro begins
    by_contra known
    have taken := Lexeme.extent_eq_of_matches known lexeme.matched
    rw [Lexeme.extent_of_gap begins] at taken
    exact known (Prod.mk.inj taken).1.symm
  constructor
  · by_contra blank
    rw [Bool.not_eq_false] at blank
    have matchable : Matchable [c] := .inr (.inl ⟨List.cons_ne_nil c [], by simp [blank]⟩)
    exact lexeme.unmatched (illegal (.inl blank)) [c] (by simp) matchable
  · rintro rfl next
    obtain ⟨rest, following⟩ := List.head?_eq_some_iff.mp next
    have matchable : Matchable ['/', '/'] := .inr (.inr ⟨[], rfl, List.not_mem_nil⟩)
    refine lexeme.unmatched (illegal (.inr rfl)) ['/', '/'] ?_ matchable
    rw [List.cons_append, following]
    exact List.prefix_append ['/', '/'] rest

namespace Lexeme

/-- What is read is the one gap and the one lexeme that the text begins with. -/
theorem next?_eq_some_iff {offset : Nat} {cs rest : List Char} {lexeme : Lexeme} :
    next? offset cs = some (lexeme, rest) ↔
      ∃ gap, cs = gap ++ (lexeme.literal.toList ++ rest) ∧
        IsGap (lexeme.literal.toList ++ rest) gap ∧
        LongestMatch lexeme.kind lexeme.literal.toList rest ∧
        lexeme.pos = offset + gap.length := by
  constructor
  · intro read
    obtain ⟨c, following, skipped, rfl, rfl⟩ := exists_of_next? read
    obtain ⟨gap, behind, rfl, isGap, ends⟩ := Gap.exists_gap cs
    have longest := longestMatch_of_extent (Gap.extend?_of_skip skipped)
    rw [(Gap.take_length_and_skip isGap ends).2] at skipped
    have text : c :: following.take (extent c following).2 ++
        following.drop (extent c following).2 = behind := by
      rw [skipped, List.cons_append, List.take_append_drop]
    rw [Gap.length_of_isGap isGap ends, String.toList_ofList]
    exact ⟨gap, by rw [text], text.symm ▸ isGap, longest, rfl⟩
  · rintro ⟨gap, rfl, isGap, longest, place⟩
    have skipped := (Gap.take_length_and_skip isGap longest.length_gap).2
    obtain ⟨c, more, literal⟩ := List.exists_cons_of_ne_nil longest.nonempty
    have begins : Gap.skip (gap ++ (lexeme.literal.toList ++ rest)) = c :: (more ++ rest) := by
      rw [skipped, literal, List.cons_append]
    have other := longestMatch_of_extent (Gap.extend?_of_skip begins)
    obtain ⟨kind, taken, behind⟩ := longest.unique other (by
      rw [literal, List.cons_append, List.cons_append, List.take_append_drop])
    rw [next?, begins, Gap.length_of_isGap isGap longest.length_gap]
    simp only [← kind, ← taken, ← behind, ← place, String.ofList_toList]

theorem next?_eq_none_iff {offset : Nat} {cs : List Char} :
    next? offset cs = none ↔ IsGap [] cs := by
  obtain ⟨gap, behind, rfl, isGap, ends⟩ := Gap.exists_gap cs
  have skipped := (Gap.take_length_and_skip isGap ends).2
  constructor
  · intro nothing
    cases behind with
    | nil => rwa [List.append_nil]
    | cons c following =>
        rw [next?, skipped] at nothing
        cases nothing
  · intro whole
    have passed := (Gap.take_length_and_skip whole rfl).2
    rw [List.append_nil] at passed
    rw [next?, passed]

end Lexeme

/-! ## All tokens -/

/-- A token and the gap in front of it. -/
structure Piece where
  gap : List Char
  token : Token

/-- The characters of some pieces, one piece behind the other. -/
def charsOf (pieces : List Piece) : List Char :=
  pieces.flatMap fun piece => piece.gap ++ piece.token.literal.toList

/--
The piece begins at `start` and stands in front of the text behind it: a gap as it is
written, the token at its offset, and if this is a lexeme, the longest there is.
-/
structure Piece.Fits (start : Nat) (piece : Piece) (behind : List Char) : Prop where
  isGap : IsGap (piece.token.literal.toList ++ behind) piece.gap
  place : piece.token.pos = start + piece.gap.length
  longest : ∀ lexeme, piece.token = .lexeme lexeme →
    LongestMatch lexeme.kind lexeme.literal.toList behind

/--
The pieces make up the text that begins at `offset`.  Each of them fits where it stands,
and the last one, and no other, is the end of the input.
-/
structure Tokenization (offset : Nat) (cs : List Char) (pieces : List Piece) : Prop where
  whole : charsOf pieces = cs
  fits : ∀ before piece behind, pieces = before ++ piece :: behind →
    piece.Fits (offset + (charsOf before).length) (charsOf behind)
  ends : ∃ front gap, pieces = front ++ [⟨gap, .endOfInput (offset + cs.length)⟩] ∧
    ∀ piece ∈ front, ∃ lexeme, piece.token = .lexeme lexeme

theorem charsOf_cons (piece : Piece) (pieces : List Piece) :
    charsOf (piece :: pieces) = piece.gap ++ (piece.token.literal.toList ++ charsOf pieces) := by
  simp [charsOf]

theorem Lexeme.endPos_add {lexeme : Lexeme} {offset : Nat} {gap : List Char}
    (place : lexeme.pos = offset + gap.length) (rest : List Char) :
    lexeme.endPos + rest.length =
      offset + (gap ++ (lexeme.literal.toList ++ rest)).length := by
  rw [endPos, place]
  simp only [List.length_append, String.length_toList]
  omega

variable {offset : Nat} {cs gap : List Char} {pieces : List Piece}

theorem tokenization_cons {lexeme : Lexeme} :
    Tokenization offset cs (⟨gap, .lexeme lexeme⟩ :: pieces) ↔
      ∃ rest, cs = gap ++ (lexeme.literal.toList ++ rest) ∧
        IsGap (lexeme.literal.toList ++ rest) gap ∧
        LongestMatch lexeme.kind lexeme.literal.toList rest ∧
        lexeme.pos = offset + gap.length ∧
        Tokenization lexeme.endPos rest pieces := by
  constructor
  · rintro ⟨rfl, fits, front, last, shape, lexemes⟩
    have begins := fits [] _ pieces rfl
    have place : lexeme.pos = offset + gap.length := begins.place
    rw [charsOf_cons] at shape ⊢
    refine ⟨charsOf pieces, rfl, begins.isGap, begins.longest lexeme rfl, place, rfl, ?_, ?_⟩
    · intro before piece behind split
      have inside := fits (⟨gap, .lexeme lexeme⟩ :: before) piece behind (congrArg _ split)
      rw [charsOf_cons] at inside
      rwa [Lexeme.endPos_add place]
    · cases front with
      | nil => simp at shape
      | cons first front =>
          obtain ⟨rfl, remaining⟩ := List.cons.inj shape
          rw [Lexeme.endPos_add place]
          exact ⟨front, last, remaining, fun piece member =>
            lexemes piece (List.mem_cons_of_mem _ member)⟩
  · rintro ⟨rest, rfl, isGap, longest, place, rfl, fits, front, last, shape, lexemes⟩
    refine ⟨charsOf_cons _ _, ?_, ⟨gap, .lexeme lexeme⟩ :: front, last, ?_, ?_⟩
    · intro before piece behind split
      rcases List.cons_eq_append_iff.mp split with ⟨rfl, same⟩ | ⟨inside, rfl, same⟩
      · obtain ⟨rfl, rfl⟩ := List.cons.inj same
        refine ⟨isGap, place, fun other same => ?_⟩
        cases same
        exact longest
      · have behindFirst := fits inside piece behind same
        rw [Lexeme.endPos_add place] at behindFirst
        rwa [charsOf_cons]
    · rw [Lexeme.endPos_add place] at shape
      exact congrArg _ shape
    · intro piece member
      rcases List.mem_cons.mp member with rfl | member
      · exact ⟨lexeme, rfl⟩
      · exact lexemes piece member

theorem tokenization_endOfInput {pos : Nat} :
    Tokenization offset cs (⟨gap, .endOfInput pos⟩ :: pieces) ↔
      IsGap [] cs ∧ gap = cs ∧ pos = offset + cs.length ∧ pieces = [] := by
  constructor
  · rintro ⟨rfl, fits, front, last, shape, lexemes⟩
    cases front with
    | nil =>
        obtain ⟨same, rfl⟩ := List.cons.inj shape
        rw [Piece.mk.injEq, Token.endOfInput.injEq] at same
        have only : charsOf [⟨gap, .endOfInput pos⟩] = gap := by simp [charsOf, Token.literal]
        rw [only] at same ⊢
        exact ⟨(fits [] _ [] rfl).isGap, rfl, same.2, rfl⟩
    | cons first front =>
        obtain ⟨rfl, _⟩ := List.cons.inj shape
        obtain ⟨lexeme, other⟩ := lexemes _ List.mem_cons_self
        cases other
  · rintro ⟨isGap, rfl, rfl, rfl⟩
    refine ⟨by simp [charsOf, Token.literal], ?_, [], gap, rfl, by simp⟩
    intro before piece behind split
    rcases List.cons_eq_append_iff.mp split with ⟨rfl, same⟩ | ⟨inside, _, none⟩
    · obtain ⟨rfl, rfl⟩ := List.cons.inj same
      exact ⟨isGap, rfl, fun lexeme other => by cases other⟩
    · simp at none

theorem exists_tokenization (offset : Nat) (cs : List Char) :
    ∃ pieces, Tokenization offset cs pieces ∧ pieces.map Piece.token =
      (lexemesFrom offset cs).map .lexeme ++ [.endOfInput (offset + cs.length)] := by
  induction offset, cs using lexemesFrom.induct with
  | case1 offset cs none =>
      have isGap := Lexeme.next?_eq_none_iff.mp none
      refine ⟨[⟨cs, .endOfInput (offset + cs.length)⟩],
        tokenization_endOfInput.mpr ⟨isGap, rfl, rfl, rfl⟩, ?_⟩
      rw [lexemesFrom_of_none none]
      rfl
  | case2 offset cs lexeme rest read ih =>
      obtain ⟨pieces, behind, tokens⟩ := ih
      obtain ⟨gap, rfl, isGap, longest, place⟩ := Lexeme.next?_eq_some_iff.mp read
      refine ⟨⟨gap, .lexeme lexeme⟩ :: pieces,
        tokenization_cons.mpr ⟨rest, rfl, isGap, longest, place, behind⟩, ?_⟩
      rw [List.map_cons, tokens, Lexeme.endPos_add place, lexemesFrom_of_some read]
      rfl

/-- The tokens of a tokenization are the lexemes of the text and the end of the input. -/
theorem Tokenization.tokens (tokenized : Tokenization offset cs pieces) :
    pieces.map Piece.token =
      (lexemesFrom offset cs).map .lexeme ++ [.endOfInput (offset + cs.length)] := by
  induction pieces generalizing offset cs with
  | nil =>
      obtain ⟨front, gap, shape, _⟩ := tokenized.ends
      simp at shape
  | cons piece pieces ih =>
      obtain ⟨gap, token⟩ := piece
      cases token with
      | lexeme lexeme =>
          obtain ⟨rest, rfl, isGap, longest, place, behind⟩ := tokenization_cons.mp tokenized
          have read := Lexeme.next?_eq_some_iff.mpr ⟨gap, rfl, isGap, longest, place⟩
          rw [List.map_cons, ih behind, Lexeme.endPos_add place, lexemesFrom_of_some read]
          rfl
      | endOfInput pos =>
          obtain ⟨isGap, _, rfl, rfl⟩ := tokenization_endOfInput.mp tokenized
          rw [lexemesFrom_of_none (Lexeme.next?_eq_none_iff.mpr isGap)]
          rfl

/-- The tokens of a text are those of its tokenization, and no others are. -/
theorem eq_tokensOf_iff (text : String) (tokens : List Token) :
    tokens = tokensOf text ↔
      ∃ pieces, Tokenization 0 text.toList pieces ∧ pieces.map Piece.token = tokens := by
  have ends : 0 + text.toList.length = text.length := by rw [Nat.zero_add, String.length_toList]
  constructor
  · rintro rfl
    obtain ⟨pieces, tokenized, tokens⟩ := exists_tokenization 0 text.toList
    refine ⟨pieces, tokenized, ?_⟩
    rw [tokens, ends]
    rfl
  · rintro ⟨pieces, tokenized, rfl⟩
    rw [tokenized.tokens, ends]
    rfl

end ContractLens
