import ContractLens.Proofs.Grammar.Completeness
import ContractLens.Proofs.Grammar.Rejection
import ContractLens.Proofs.Syntax.Relocation

/-!
# Locality of reading

What is read depends on the symbols of the lexemes that are taken and, where a
phrase may go on, on the symbol of the lexeme behind them.  Offsets are handed
through and never looked at.  So a derivation carries over to lexemes at other
offsets, and to other lexemes behind them; and so does a rejection.
-/

namespace ContractLens.Grammar

open Phrase

/-! ## The lexeme in front -/

/-- Both lists begin with the same symbol, or neither has a lexeme. -/
def SameHead (first second : List Lexeme) : Prop :=
  first.head?.map Lexeme.symbol = second.head?.map Lexeme.symbol

namespace SameHead

variable {first second : List Lexeme}

theorem forall_head (same : SameHead first second) (holds : Symbol → Prop)
    (each : ∀ next ∈ first.head?, holds next.symbol) :
    ∀ next ∈ second.head?, holds next.symbol := by
  intro next isNext
  have found : second.head?.map Lexeme.symbol = some next.symbol :=
    Option.map_eq_some_iff.mpr ⟨next, isNext, rfl⟩
  obtain ⟨other, isOther, alike⟩ := Option.map_eq_some_iff.mp (same.trans found)
  rw [← alike]
  exact each other isOther

theorem exists_cons {lexeme : Lexeme} {behind : List Lexeme}
    (same : SameHead (lexeme :: behind) second) :
    ∃ other others, second = other :: others ∧ other.symbol = lexeme.symbol := by
  cases second with
  | nil => cases same
  | cons other others => exact ⟨other, others, rfl, (Option.some.inj same).symm⟩

theorem lacks {kind : Kind} (same : SameHead first second) (lacks : Lacks kind first) :
    Lacks kind second :=
  same.forall_head (fun symbol => symbol.kind ≠ kind) lacks

theorem noOperand (same : SameHead first second) (none : NoOperand first) : NoOperand second :=
  same.forall_head (fun symbol => opensOperand symbol.kind = false) none

theorem append (same : SameHead first second) (move : Nat → Nat) (taken : List Lexeme) :
    SameHead (taken ++ first) (taken.map (Lexeme.relocate move) ++ second) := by
  cases taken with
  | nil => exact same
  | cons lexeme taken => rfl

end SameHead

/-- The lexeme behind a phrase is still the same, or one at which the phrase ends anyway. -/
def Phrase.StopsAlike (phrase : Phrase) (rest behind : List Lexeme) : Prop :=
  SameHead rest behind ∨ phrase.EndsBefore behind

namespace Phrase.StopsAlike

variable {phrase : Phrase} {rest behind : List Lexeme}

/-- In front of a lexeme that is there, whatever follows it, every phrase stops alike. -/
theorem of_cons {move : Nat → Nat} {lexeme : Lexeme} :
    phrase.StopsAlike (lexeme :: rest) (lexeme.relocate move :: behind) :=
  .inl rfl

/-- What holds of the lexeme behind a phrase goes on to hold if it holds wherever it ends. -/
theorem forall_head (stops : phrase.StopsAlike rest behind) (holds : Kind → Prop)
    (each : ∀ next ∈ rest.head?, holds next.kind)
    (ends : ∀ kind, phrase.endsAt kind = true → holds kind) :
    ∀ next ∈ behind.head?, holds next.kind := by
  rcases stops with same | endsBefore
  · exact same.forall_head (fun symbol => holds symbol.kind) each
  · intro next isNext
    exact ends next.kind (endsBefore next isNext)

theorem mono {larger : Phrase} (stops : larger.StopsAlike rest behind)
    (ends : ∀ kind, larger.endsAt kind = true → phrase.endsAt kind = true) :
    phrase.StopsAlike rest behind := by
  rcases stops with same | endsBefore
  · exact .inl same
  · exact .inr fun next isNext => ends next.kind (endsBefore next isNext)

/-- A phrase stops alike in front of a second one that was taken itself. -/
theorem append {taken : List Lexeme} (move : Nat → Nat)
    (stops : phrase.StopsAlike rest behind) :
    phrase.StopsAlike (taken ++ rest) (taken.map (Lexeme.relocate move) ++ behind) := by
  cases taken with
  | nil => exact stops
  | cons lexeme taken => exact of_cons

end Phrase.StopsAlike

/-! ## Expressions -/

/-- A derivation carries over to other offsets, and to lexemes at which it stops alike. -/
theorem Reads.relocated {phrase : Phrase} {lexemes rest : List Lexeme}
    {meaning : List Expression} (reads : Reads phrase lexemes meaning rest) :
    ∃ taken, lexemes = taken ++ rest ∧ ∀ move behind, phrase.StopsAlike rest behind →
      Reads phrase (taken.map (Lexeme.relocate move) ++ behind)
        (meaning.map (Expression.relocate move)) behind := by
  induction reads with
  | @name lexeme rest identifier =>
      refine ⟨[lexeme], rfl, fun move behind _ => ?_⟩
      simp only [List.map_cons, List.map_nil, Expression.relocate]
      exact .name identifier
  | @integer lexeme rest integer =>
      refine ⟨[lexeme], rfl, fun move behind _ => ?_⟩
      simp only [List.map_cons, List.map_nil, Expression.relocate]
      exact .integer integer
  | @string lexeme rest string =>
      refine ⟨[lexeme], rfl, fun move behind _ => ?_⟩
      simp only [List.map_cons, List.map_nil, Expression.relocate]
      exact .string string
  | @paren opening closing inside rest inner opens _ closes ih =>
      obtain ⟨taken, rfl, again⟩ := ih
      refine ⟨opening :: (taken ++ [closing]), by simp, fun move behind _ => ?_⟩
      have inner := again move (closing.relocate move :: behind) .of_cons
      simp only [List.map_cons, List.map_nil, Expression.relocate] at inner ⊢
      have opensMoved : (opening.relocate move).kind = .leftParen := opens
      simpa using Reads.paren opensMoved inner closes
  | @bare lexemes rest operand _ ends ih =>
      obtain ⟨taken, rfl, again⟩ := ih
      refine ⟨taken, rfl, fun move behind stops => ?_⟩
      refine .bare (again move behind (.inr (operand_endsBefore behind))) ?_
      exact stops.forall_head (opensSuffix · = false) ends (by simp [endsAt])
  | @selector point member lexemes rest base _ period identifier ih =>
      obtain ⟨taken, rfl, again⟩ := ih
      refine ⟨taken ++ [point, member], by simp, fun move behind _ => ?_⟩
      have base := again move (point.relocate move :: member.relocate move :: behind)
        .of_cons
      simp only [List.map_cons, List.map_nil, Expression.relocate] at base ⊢
      simpa using Reads.selector base period identifier
  | @call opening closing lexemes inside rest callee arguments _ opens _ closes calleeIh insideIh =>
      obtain ⟨taken, rfl, again⟩ := calleeIh
      obtain ⟨between, rfl, insideAgain⟩ := insideIh
      refine ⟨taken ++ opening :: (between ++ [closing]), by simp, fun move behind _ => ?_⟩
      have inner := insideAgain move (closing.relocate move :: behind) .of_cons
      have base := again move (opening.relocate move ::
        (between.map (Lexeme.relocate move) ++ closing.relocate move :: behind))
        .of_cons
      simp only [List.map_cons, List.map_nil, Expression.relocate] at base ⊢
      simpa using Reads.call base opens inner closes
  | @index opening closing lexemes inside rest base subscript _ opens _ closes baseIh insideIh =>
      obtain ⟨taken, rfl, again⟩ := baseIh
      obtain ⟨between, rfl, insideAgain⟩ := insideIh
      refine ⟨taken ++ opening :: (between ++ [closing]), by simp, fun move behind _ => ?_⟩
      have inner := insideAgain move (closing.relocate move :: behind) .of_cons
      have base := again move (opening.relocate move ::
        (between.map (Lexeme.relocate move) ++ closing.relocate move :: behind))
        .of_cons
      simp only [List.map_cons, List.map_nil, Expression.relocate] at base inner ⊢
      simpa using Reads.index base opens inner closes
  | @noMore rest ends =>
      refine ⟨[], rfl, fun move behind stops => .noMore ?_⟩
      exact stops.forall_head (· = .rightParen) ends (by simp [endsAt])
  | @comma mark lexemes rest arguments comma _ ih =>
      obtain ⟨taken, rfl, again⟩ := ih
      exact ⟨mark :: taken, rfl, fun move behind stops => .comma comma (again move behind stops)⟩
  | @argument lexemes middle rest argument arguments _ _ argumentIh ih =>
      obtain ⟨taken, rfl, again⟩ := ih
      obtain ⟨front, rfl, argumentAgain⟩ := argumentIh
      refine ⟨front ++ taken, by simp, fun move behind stops => ?_⟩
      have stopsFirst : Phrase.primary.StopsAlike rest behind :=
        stops.mono (by simp +contextual [endsAt, opensSuffix])
      have first := argumentAgain move _ (stopsFirst.append move)
      simpa using Reads.argument first (again move behind stops)
  | @primary lexemes rest primary _ ends ih =>
      obtain ⟨taken, rfl, again⟩ := ih
      refine ⟨taken, rfl, fun move behind stops => ?_⟩
      refine .primary (again move behind (stops.mono (by simp +contextual [endsAt]))) ?_
      exact stops.forall_head (operator? · = none) ends (by simp [endsAt])
  | @binary mark lexemes behind rest left right operator _ isOperator _ leftIh rightIh =>
      obtain ⟨taken, rfl, again⟩ := rightIh
      obtain ⟨front, rfl, leftAgain⟩ := leftIh
      refine ⟨front ++ mark :: taken, by simp, fun move behind stops => ?_⟩
      have right := again move behind stops
      have left := leftAgain move (mark.relocate move ::
        (taken.map (Lexeme.relocate move) ++ behind)) .of_cons
      simp only [List.map_cons, List.map_nil, Expression.relocate] at left right ⊢
      simpa using Reads.binary left isOperator right

/-- A rejection carries over to other offsets, and to lexemes with the same one in front. -/
theorem Rejects.relocated {phrase : Phrase} {lexemes rest : List Lexeme} {cause : Cause}
    (rejects : Rejects phrase lexemes cause rest) :
    ∃ taken, lexemes = taken ++ rest ∧ ∀ move behind, SameHead rest behind →
      Rejects phrase (taken.map (Lexeme.relocate move) ++ behind) cause behind := by
  induction rejects with
  | noOperand none => exact ⟨[], rfl, fun move behind same => .noOperand (same.noOperand none)⟩
  | @inParen opening inside rest cause opens _ ih =>
      obtain ⟨taken, rfl, again⟩ := ih
      exact ⟨opening :: taken, rfl, fun move behind same => .inParen opens (again move behind same)⟩
  | @unclosedParen opening inside rest inner opens inside lacks =>
      obtain ⟨taken, rfl, again⟩ := inside.relocated
      refine ⟨opening :: taken, rfl, fun move behind same => ?_⟩
      exact .unclosedParen opens (again move behind (.inl same)) (same.lacks lacks)
  | inOperand _ ih =>
      obtain ⟨taken, rfl, again⟩ := ih
      exact ⟨taken, rfl, fun move behind same => .inOperand (again move behind same)⟩
  | @noMember point lexemes rest base operand period lacks =>
      obtain ⟨taken, rfl, again⟩ := operand.relocated
      refine ⟨taken ++ [point], by simp, fun move behind same => ?_⟩
      have base := again move (point.relocate move :: behind) .of_cons
      simpa using Rejects.noMember base period (same.lacks lacks)
  | @inArguments opening lexemes inside rest callee cause operand opens _ ih =>
      obtain ⟨between, rfl, insideAgain⟩ := ih
      obtain ⟨taken, rfl, again⟩ := operand.relocated
      refine ⟨taken ++ opening :: between, by simp, fun move behind same => ?_⟩
      have base := again move (opening.relocate move ::
        (between.map (Lexeme.relocate move) ++ behind)) .of_cons
      simpa using Rejects.inArguments base opens (insideAgain move behind same)
  | @unclosedArguments opening lexemes inside rest callee arguments operand opens inside lacks =>
      obtain ⟨between, rfl, insideAgain⟩ := inside.relocated
      obtain ⟨taken, rfl, again⟩ := operand.relocated
      refine ⟨taken ++ opening :: between, by simp, fun move behind same => ?_⟩
      have base := again move (opening.relocate move ::
        (between.map (Lexeme.relocate move) ++ behind)) .of_cons
      have inner := insideAgain move behind (.inl same)
      simpa using Rejects.unclosedArguments base opens inner (same.lacks lacks)
  | @inSubscript opening lexemes inside rest base cause operand opens _ ih =>
      obtain ⟨between, rfl, insideAgain⟩ := ih
      obtain ⟨taken, rfl, again⟩ := operand.relocated
      refine ⟨taken ++ opening :: between, by simp, fun move behind same => ?_⟩
      have base := again move (opening.relocate move ::
        (between.map (Lexeme.relocate move) ++ behind)) .of_cons
      simpa using Rejects.inSubscript base opens (insideAgain move behind same)
  | @unclosedSubscript opening lexemes inside rest base subscript operand opens inside lacks =>
      obtain ⟨between, rfl, insideAgain⟩ := inside.relocated
      obtain ⟨taken, rfl, again⟩ := operand.relocated
      refine ⟨taken ++ opening :: between, by simp, fun move behind same => ?_⟩
      have base := again move (opening.relocate move ::
        (between.map (Lexeme.relocate move) ++ behind)) .of_cons
      have inner := insideAgain move behind (.inl same)
      simpa using Rejects.unclosedSubscript base opens inner (same.lacks lacks)
  | @behindComma mark lexemes rest cause comma _ ih =>
      obtain ⟨taken, rfl, again⟩ := ih
      exact ⟨mark :: taken, rfl, fun move behind same =>
        .behindComma comma (again move behind same)⟩
  | @inArgument first lexemes rest cause noClosing noComma _ ih =>
      obtain ⟨taken, whole, again⟩ := ih
      refine ⟨taken, whole, fun move behind same => ?_⟩
      have alike := same.append move taken
      rw [← whole] at alike
      obtain ⟨other, others, begins, symbol⟩ := alike.exists_cons
      have kind : other.kind = first.kind := congrArg Symbol.kind symbol
      have rejects := again move behind same
      rw [begins] at rejects ⊢
      exact .inArgument (kind ▸ noClosing) (kind ▸ noComma) rejects
  | @behindArgument lexemes middle rest argument cause primary _ ih =>
      obtain ⟨taken, rfl, again⟩ := ih
      obtain ⟨front, rfl, argumentAgain⟩ := primary.relocated
      refine ⟨front ++ taken, by simp, fun move behind same => ?_⟩
      have first := argumentAgain move _ (.inl (same.append move taken))
      simpa using Rejects.behindArgument first (again move behind same)
  | inPrimary _ ih =>
      obtain ⟨taken, rfl, again⟩ := ih
      exact ⟨taken, rfl, fun move behind same => .inPrimary (again move behind same)⟩
  | @inRight mark lexemes inside rest left operator cause primary isOperator _ ih =>
      obtain ⟨taken, rfl, again⟩ := ih
      obtain ⟨front, rfl, leftAgain⟩ := primary.relocated
      refine ⟨front ++ mark :: taken, by simp, fun move behind same => ?_⟩
      have left := leftAgain move (mark.relocate move ::
        (taken.map (Lexeme.relocate move) ++ behind)) .of_cons
      simpa using Rejects.inRight left isOperator (again move behind same)

end ContractLens.Grammar
