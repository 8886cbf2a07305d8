import ContractLens.Proofs.Token.Order
import ContractLens.Proofs.Token.Tokenization

/-!
# Truncation

A text that is cut off in front of one of its lexemes keeps the lexemes in front of the cut.
What was a gap or a longest match is still one when there is less text behind it.
-/

namespace ContractLens

variable {behind front : List Char}

theorem IsGap.of_prefix {gap : List Char} (isGap : IsGap behind gap) (less : front <+: behind) :
    IsGap front gap := by
  induction isGap with
  | none => exact .none
  | blank isBlank _ ih => exact .blank isBlank ih
  | @comment body rest noFeed stops _ ih =>
      refine .comment noFeed (fun c begins => stops c ?_) ih
      obtain ⟨more, rfl⟩ := less
      rw [← List.append_assoc, List.head?_append, begins, Option.some_or]

/-- A longest match is still one in front of less text. -/
theorem LongestMatch.of_prefix {kind : Kind} {literal : List Char}
    (lexeme : LongestMatch kind literal behind) (less : front <+: behind) :
    LongestMatch kind literal front := by
  have within : literal ++ front <+: literal ++ behind :=
    (List.prefix_append_right_inj literal).mpr less
  exact ⟨lexeme.nonempty, lexeme.matched,
    fun longer begins => lexeme.longest longer (begins.trans within),
    fun illegal other begins => lexeme.unmatched illegal other (begins.trans within)⟩

/-- The same lexeme is read if the text ends somewhere behind it. -/
theorem Lexeme.next?_take {offset : Nat} {cs rest : List Char} {lexeme : Lexeme}
    (read : next? offset cs = some (lexeme, rest)) (more : Nat) :
    next? offset (cs.take (lexeme.endPos - offset + more)) = some (lexeme, rest.take more) := by
  obtain ⟨gap, rfl, isGap, longest, place⟩ := next?_eq_some_iff.mp read
  have less : rest.take more <+: rest := List.take_prefix more rest
  refine next?_eq_some_iff.mpr ⟨gap, ?_, ?_, longest.of_prefix less, place⟩
  · have length : lexeme.endPos - offset + more =
        (gap ++ lexeme.literal.toList).length + more := by
      rw [endPos, place, List.length_append, String.length_toList]
      omega
    rw [length, ← List.append_assoc, List.take_length_add_append, List.append_assoc]
  · exact isGap.of_prefix ((List.prefix_append_right_inj _).mpr less)

theorem Lexeme.next?_take_gap {offset : Nat} {cs rest : List Char} {lexeme : Lexeme}
    (read : next? offset cs = some (lexeme, rest)) :
    next? offset (cs.take (lexeme.pos - offset)) = none := by
  obtain ⟨gap, rfl, isGap, _, place⟩ := next?_eq_some_iff.mp read
  rw [place, Nat.add_sub_cancel_left, List.take_left]
  exact next?_eq_none_iff.mpr (isGap.of_prefix (List.nil_prefix))

/-- The lexemes in front of the offset at which a text is cut off are its lexemes then. -/
theorem lexemesFrom_take {offset : Nat} {cs : List Char} {before after : List Lexeme}
    {lexeme : Lexeme} (whole : lexemesFrom offset cs = before ++ lexeme :: after) :
    lexemesFrom offset (cs.take (lexeme.pos - offset)) = before := by
  induction offset, cs using lexemesFrom.induct generalizing before with
  | case1 offset cs none =>
      rw [lexemesFrom_of_none none] at whole
      simp at whole
  | case2 offset cs first rest read ih =>
      rw [lexemesFrom_of_some read] at whole
      cases before with
      | nil =>
          obtain ⟨rfl, _⟩ := List.cons.inj whole
          exact lexemesFrom_of_none (Lexeme.next?_take_gap read)
      | cons other before =>
          obtain ⟨rfl, behindFirst⟩ := List.cons.inj whole
          have member : lexeme ∈ lexemesFrom first.endPos rest := by simp [behindFirst]
          obtain ⟨_, _, _, place⟩ := stands_of_mem_lexemesFrom lexeme member
          have length : lexeme.pos - offset =
              first.endPos - offset + (lexeme.pos - first.endPos) := by
            have begins := Lexeme.pos_of_next? read
            have ends : first.endPos = first.pos + first.literal.length := rfl
            omega
          rw [length, lexemesFrom_of_some (Lexeme.next?_take read _), ih behindFirst]

theorem lexemesOf_take {text : String} {before after : List Lexeme} {lexeme : Lexeme}
    (whole : lexemesOf text = before ++ lexeme :: after) :
    lexemesOf (String.ofList (text.toList.take lexeme.pos)) = before := by
  rw [lexemesOf, String.toList_ofList]
  exact lexemesFrom_take whole

end ContractLens
