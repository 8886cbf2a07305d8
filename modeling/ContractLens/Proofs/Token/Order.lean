import ContractLens.Proofs.Token.Gap
import ContractLens.Token.Lexeme

/-!
# Order of lexemes

Every lexeme of a text stands where its offset says, and the lexemes come one
behind the other without overlapping.  So an offset belongs to one lexeme at most.
-/

namespace ContractLens

namespace Lexeme

/-- A lexeme is as much of the text behind the gap as belongs to its first character. -/
theorem exists_of_next? {offset : Nat} {cs rest : List Char} {lexeme : Lexeme}
    (read : next? offset cs = some (lexeme, rest)) :
    ∃ c following, Gap.skip cs = c :: following ∧
      lexeme = ⟨offset + Gap.length false cs, (extent c following).1,
        String.ofList (c :: following.take (extent c following).2)⟩ ∧
      rest = following.drop (extent c following).2 := by
  unfold next? at read
  split at read
  · cases read
  · next c following skipped =>
      simp only [Option.some.injEq, Prod.mk.injEq] at read
      exact ⟨c, following, skipped, read.1.symm, read.2.symm⟩

theorem pos_of_next? {offset : Nat} {cs rest : List Char} {lexeme : Lexeme}
    (read : next? offset cs = some (lexeme, rest)) :
    lexeme.pos = offset + (cs.take (Gap.length false cs)).length := by
  obtain ⟨c, following, _, rfl, _⟩ := exists_of_next? read
  rw [List.length_take, Nat.min_eq_left (Gap.length_le false cs)]

theorem length_pos_of_next? {offset : Nat} {cs rest : List Char} {lexeme : Lexeme}
    (read : next? offset cs = some (lexeme, rest)) : 0 < lexeme.literal.length := by
  obtain ⟨c, following, _, rfl, _⟩ := exists_of_next? read
  rw [String.length_ofList, List.length_cons]
  exact Nat.succ_pos _

end Lexeme

theorem forall_mem_lexemesFrom {holds : Lexeme → Prop}
    (each : ∀ {offset : Nat} {cs rest : List Char} {lexeme : Lexeme},
      Lexeme.next? offset cs = some (lexeme, rest) → holds lexeme) (offset : Nat)
    (cs : List Char) : ∀ lexeme ∈ lexemesFrom offset cs, holds lexeme := by
  induction offset, cs using lexemesFrom.induct with
  | case1 offset cs none =>
      rw [lexemesFrom_of_none none]
      simp
  | case2 offset cs first rest read ih =>
      rw [lexemesFrom_of_some read]
      intro lexeme member
      rcases List.mem_cons.mp member with rfl | behind
      · exact each read
      · exact ih lexeme behind

theorem stands_of_mem_lexemesFrom {offset : Nat} {cs : List Char} :
    ∀ lexeme ∈ lexemesFrom offset cs, ∃ before after,
      cs = before ++ lexeme.literal.toList ++ after ∧ lexeme.pos = offset + before.length := by
  induction offset, cs using lexemesFrom.induct with
  | case1 offset cs none =>
      rw [lexemesFrom_of_none none]
      simp
  | case2 offset cs first rest read ih =>
      have whole := Lexeme.text_of_next? read
      have place := Lexeme.pos_of_next? read
      rw [lexemesFrom_of_some read]
      intro lexeme member
      rcases List.mem_cons.mp member with rfl | behind
      · exact ⟨_, rest, whole.symm, place⟩
      · obtain ⟨before, after, split, pos⟩ := ih lexeme behind
        refine ⟨cs.take (Gap.length false cs) ++ first.literal.toList ++ before, after, ?_, ?_⟩
        · rw [List.append_assoc, List.append_assoc, ← List.append_assoc before, ← split]
          exact whole.symm
        · rw [pos, Lexeme.endPos, place]
          simp only [List.length_append, String.length_toList]
          omega

theorem pairwise_pos_lexemesFrom (offset : Nat) (cs : List Char) :
    (lexemesFrom offset cs).Pairwise (·.pos < ·.pos) := by
  induction offset, cs using lexemesFrom.induct with
  | case1 offset cs none =>
      rw [lexemesFrom_of_none none]
      exact .nil
  | case2 offset cs first rest read ih =>
      rw [lexemesFrom_of_some read]
      refine .cons ?_ ih
      intro lexeme behind
      obtain ⟨before, after, _, pos⟩ := stands_of_mem_lexemesFrom lexeme behind
      have positive := Lexeme.length_pos_of_next? read
      rw [pos, Lexeme.endPos]
      omega

theorem getElem?_pos_of_mem_lexemesOf {text : String} {lexeme : Lexeme} {c : Char}
    {more : List Char} (member : lexeme ∈ lexemesOf text)
    (begins : lexeme.literal.toList = c :: more) : text.toList[lexeme.pos]? = some c := by
  obtain ⟨before, after, whole, pos⟩ := stands_of_mem_lexemesFrom lexeme member
  rw [whole, pos, begins, Nat.zero_add, List.append_assoc, List.getElem?_append_right (by omega)]
  simp

/-- A lexeme does not begin with a line feed. -/
theorem exists_first_of_mem_lexemesOf {text : String} {lexeme : Lexeme}
    (member : lexeme ∈ lexemesOf text) : ∃ c, text.toList[lexeme.pos]? = some c ∧ c ≠ '\n' := by
  have begins : ∃ c more, lexeme.literal.toList = c :: more ∧ Gap.isBlank c = false := by
    apply forall_mem_lexemesFrom _ 0 text.toList lexeme member
    intro offset cs rest lexeme read
    obtain ⟨c, following, skipped, rfl, _⟩ := Lexeme.exists_of_next? read
    exact ⟨c, _, String.toList_ofList, (Gap.extend?_eq_none.mp (Gap.extend?_of_skip skipped)).1⟩
  obtain ⟨c, more, begins, noBlank⟩ := begins
  refine ⟨c, getElem?_pos_of_mem_lexemesOf member begins, ?_⟩
  rintro rfl
  cases noBlank

end ContractLens
