import ContractLens.Proofs.Grammar.ProgramLocality

/-!
# Completions

What was read in front of a refusal was no mistake: with other lexemes behind it,
it can be read to the end.  A completion is given by the kinds of its lexemes, one
sample for each, and there is one for every way in which a phrase can be refused.
-/

namespace ContractLens

/-- A text of each kind. -/
def Kind.sample : Kind → String
  | identifier => "x"
  | integer => "0"
  | string => "\"\""
  | illegal => "#"
  | kind => kind.display

def Lexeme.sample (kind : Kind) : Lexeme :=
  ⟨0, kind, kind.sample⟩

namespace Grammar

open Phrase

abbrev samples (kinds : List Kind) : List Lexeme :=
  kinds.map Lexeme.sample

variable {lexemes rest : List Lexeme} {cause : Cause}

/-! ## Expressions -/

theorem Reads.single {phrase : Phrase} {meaning : List Expression}
    (reads : Reads phrase lexemes meaning rest) (single : phrase ≠ .arguments) :
    ∃ expression, meaning = [expression] := by
  cases reads with
  | noMore | comma | argument => exact absurd rfl single
  | _ => exact ⟨_, rfl⟩

/-- The completion begins with a name. -/
def BeginsWithName (completion : List Kind) : Prop :=
  ∃ others, completion = .identifier :: others

theorem BeginsWithName.append {completion : List Kind} (begins : BeginsWithName completion)
    (more : List Kind) : BeginsWithName (completion ++ more) := by
  obtain ⟨others, rfl⟩ := begins
  exact ⟨others ++ more, rfl⟩

theorem Phrase.endsBefore_of_name {phrase : Phrase} (single : phrase ≠ .arguments)
    {completion : List Kind} (begins : BeginsWithName completion) (tail : List Lexeme) :
    phrase.EndsBefore (samples completion ++ tail) := by
  obtain ⟨others, rfl⟩ := begins
  refine endsBefore_cons rfl ?_
  cases phrase with
  | arguments => exact absurd rfl single
  | _ => rfl

/-- A phrase stops alike where what follows it is completed. -/
theorem Phrase.stopsAlike_of_completion {phrase : Phrase} (single : phrase ≠ .arguments)
    {taken : List Lexeme} {completion : List Kind}
    (begins : taken = [] → BeginsWithName completion) (tail : List Lexeme) :
    phrase.StopsAlike (taken ++ rest) (taken ++ (samples completion ++ tail)) := by
  cases taken with
  | nil => exact .inr (endsBefore_of_name single (begins rfl) tail)
  | cons lexeme taken => exact .inl rfl

/-- What is derived is derived in front of other lexemes at which it stops alike. -/
theorem Reads.followed {phrase : Phrase} {meaning : List Expression}
    (reads : Reads phrase lexemes meaning rest) :
    ∃ taken, lexemes = taken ++ rest ∧ ∀ behind, phrase.StopsAlike rest behind →
      Reads phrase (taken ++ behind) meaning behind := by
  obtain ⟨taken, rfl, again⟩ := reads.relocated
  exact ⟨taken, rfl, fun behind stops => by simpa using again id behind stops⟩

theorem Reads.taken_ne_nil {taken : List Lexeme} {expression : Expression}
    (reads : Reads .expression (taken ++ rest) [expression] rest) : taken ≠ [] := by
  rintro rfl
  exact absurd (accepts_readExpression.mpr reads).shorter (Nat.lt_irrefl _)

/-- A rejected phrase can be completed; where nothing was taken, a name comes first. -/
theorem Rejects.completed {phrase : Phrase} (rejects : Rejects phrase lexemes cause rest) :
    ∃ (taken : List Lexeme) (completion : List Kind),
      (taken = [] → BeginsWithName completion) ∧ lexemes = taken ++ rest ∧
      ∀ tail, phrase.EndsBefore tail → ∃ meaning,
        Reads phrase (taken ++ (samples completion ++ tail)) meaning tail := by
  induction rejects with
  | noOperand _ =>
      exact ⟨[], [.identifier], fun _ => ⟨[], rfl⟩, rfl, fun tail _ => ⟨_, .name rfl⟩⟩
  | @inParen opening inside rest cause opens _ ih =>
      obtain ⟨taken, completion, _, rfl, again⟩ := ih
      refine ⟨opening :: taken, completion ++ [.rightParen], by simp, rfl, fun tail _ => ?_⟩
      obtain ⟨meaning, reads⟩ := again (.sample .rightParen :: tail) (endsBefore_cons rfl rfl)
      obtain ⟨inner, rfl⟩ := reads.single (by simp)
      exact ⟨_, by simpa using Reads.paren opens reads rfl⟩
  | @unclosedParen opening inside rest inner opens inside _ =>
      obtain ⟨taken, rfl, again⟩ := inside.followed
      refine ⟨opening :: taken, [.rightParen], by simp, rfl, fun tail _ => ?_⟩
      have reads := again (.sample .rightParen :: tail) (.inr (endsBefore_cons rfl rfl))
      exact ⟨_, by simpa using Reads.paren opens reads rfl⟩
  | inOperand _ ih =>
      obtain ⟨taken, completion, begins, rfl, again⟩ := ih
      refine ⟨taken, completion, begins, rfl, fun tail ends => ?_⟩
      obtain ⟨meaning, reads⟩ := again tail (operand_endsBefore tail)
      obtain ⟨operand, rfl⟩ := reads.single (by simp)
      exact ⟨_, .bare reads fun next isNext => by simpa [endsAt] using ends next isNext⟩
  | @noMember point lexemes rest base operand period _ =>
      obtain ⟨taken, rfl, again⟩ := operand.followed
      refine ⟨taken ++ [point], [.identifier], by simp, by simp, fun tail _ => ?_⟩
      have reads := again (point :: .sample .identifier :: tail) (.inl rfl)
      exact ⟨_, by simpa using Reads.selector reads period rfl⟩
  | @inArguments opening lexemes inside rest callee cause operand opens _ ih =>
      obtain ⟨between, completion, _, rfl, again⟩ := ih
      obtain ⟨taken, rfl, operandAgain⟩ := operand.followed
      refine ⟨taken ++ opening :: between, completion ++ [.rightParen], by simp, by simp,
        fun tail _ => ?_⟩
      obtain ⟨meaning, reads⟩ := again (.sample .rightParen :: tail) (endsBefore_cons rfl rfl)
      have base := operandAgain (opening ::
        (between ++ (samples completion ++ .sample .rightParen :: tail))) (.inl rfl)
      exact ⟨_, by simpa using Reads.call base opens reads rfl⟩
  | @unclosedArguments opening lexemes inside rest callee arguments operand opens inside _ =>
      obtain ⟨between, rfl, again⟩ := inside.followed
      obtain ⟨taken, rfl, operandAgain⟩ := operand.followed
      refine ⟨taken ++ opening :: between, [.rightParen], by simp, by simp, fun tail _ => ?_⟩
      have reads := again (.sample .rightParen :: tail) (.inr (endsBefore_cons rfl rfl))
      have base := operandAgain (opening :: (between ++ .sample .rightParen :: tail)) (.inl rfl)
      exact ⟨_, by simpa using Reads.call base opens reads rfl⟩
  | @inSubscript opening lexemes inside rest base cause operand opens _ ih =>
      obtain ⟨between, completion, _, rfl, again⟩ := ih
      obtain ⟨taken, rfl, operandAgain⟩ := operand.followed
      refine ⟨taken ++ opening :: between, completion ++ [.rightBracket], by simp, by simp,
        fun tail _ => ?_⟩
      obtain ⟨meaning, reads⟩ := again (.sample .rightBracket :: tail) (endsBefore_cons rfl rfl)
      obtain ⟨subscript, rfl⟩ := reads.single (by simp)
      have base := operandAgain (opening ::
        (between ++ (samples completion ++ .sample .rightBracket :: tail))) (.inl rfl)
      exact ⟨_, by simpa using Reads.index base opens reads rfl⟩
  | @unclosedSubscript opening lexemes inside rest base subscript operand opens inside _ =>
      obtain ⟨between, rfl, again⟩ := inside.followed
      obtain ⟨taken, rfl, operandAgain⟩ := operand.followed
      refine ⟨taken ++ opening :: between, [.rightBracket], by simp, by simp, fun tail _ => ?_⟩
      have reads := again (.sample .rightBracket :: tail) (.inr (endsBefore_cons rfl rfl))
      have base := operandAgain (opening :: (between ++ .sample .rightBracket :: tail)) (.inl rfl)
      exact ⟨_, by simpa using Reads.index base opens reads rfl⟩
  | @behindComma mark lexemes rest cause comma _ ih =>
      obtain ⟨taken, completion, _, rfl, again⟩ := ih
      refine ⟨mark :: taken, completion, by simp, rfl, fun tail ends => ?_⟩
      obtain ⟨meaning, reads⟩ := again tail ends
      exact ⟨_, .comma comma reads⟩
  | inArgument _ _ _ ih =>
      obtain ⟨taken, completion, begins, whole, again⟩ := ih
      refine ⟨taken, completion, begins, whole, fun tail ends => ?_⟩
      obtain ⟨meaning, reads⟩ := again tail fun next isNext => by
        have closes : next.kind = .rightParen := by simpa [endsAt] using ends next isNext
        simp [closes, endsAt, opensSuffix]
      obtain ⟨argument, rfl⟩ := reads.single (by simp)
      refine ⟨_, .argument reads (.noMore fun next isNext => ?_)⟩
      simpa [endsAt] using ends next isNext
  | @behindArgument lexemes middle rest argument cause primary _ ih =>
      obtain ⟨taken, completion, begins, rfl, again⟩ := ih
      obtain ⟨front, rfl, argumentAgain⟩ := primary.followed
      refine ⟨front ++ taken, completion, by simpa using fun _ => begins, by simp,
        fun tail ends => ?_⟩
      obtain ⟨meaning, reads⟩ := again tail ends
      have first := argumentAgain _ (stopsAlike_of_completion (by simp) begins tail)
      exact ⟨_, by simpa using Reads.argument first reads⟩
  | inPrimary _ ih =>
      obtain ⟨taken, completion, begins, rfl, again⟩ := ih
      refine ⟨taken, completion, begins, rfl, fun tail ends => ?_⟩
      obtain ⟨meaning, reads⟩ := again tail fun next isNext => by
        have both := ends next isNext
        simp only [endsAt, Bool.and_eq_true] at both ⊢
        exact both.1
      obtain ⟨primary, rfl⟩ := reads.single (by simp)
      refine ⟨_, .primary reads fun next isNext => ?_⟩
      have both := ends next isNext
      simp only [endsAt, Bool.and_eq_true, decide_eq_true_eq] at both
      exact both.2
  | @inRight mark lexemes inside rest left operator cause primary isOperator _ ih =>
      obtain ⟨taken, completion, _, rfl, again⟩ := ih
      obtain ⟨front, rfl, leftAgain⟩ := primary.followed
      refine ⟨front ++ mark :: taken, completion, by simp, by simp, fun tail ends => ?_⟩
      obtain ⟨meaning, reads⟩ := again tail ends
      obtain ⟨right, rfl⟩ := reads.single (by simp)
      have first := leftAgain (mark :: (taken ++ (samples completion ++ tail))) (.inl rfl)
      exact ⟨_, by simpa using Reads.binary first isOperator reads⟩

end Grammar

end ContractLens
