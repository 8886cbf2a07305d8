import ContractLens.Proofs.Grammar.Follow

/-!
# Progress in expressions

Between one lexeme and the next the procedures for expressions call each other at most
three times: an expression calls a primary, and a primary an operand, which takes a
lexeme or refuses.  So a limit of three calls for every lexeme in front of the cursor,
and three more, is never reached.
-/

namespace ContractLens.Grammar

open Step

variable {limit : Nat} {lexemes : List Lexeme}

theorem turns_argument {primary : Step Expression} (front : List Expression)
    (follows : Follows primary lexemes (readPrimary lexemes).ending) :
    Gathers (argumentTurn primary front) pure readArguments front lexemes := by
  apply Gathers.peek
  cases lexemes with
  | nil => exact .leave (.pure _ _) (by rw [readArguments]; rfl)
  | cons lexeme rest =>
      dsimp only [List.head?_cons]
      by_cases closing : lexeme.kind = .rightParen
      · rw [if_pos closing]
        exact .leave (.pure _ _) (by rw [readArguments, if_pos closing]; rfl)
      rw [if_neg closing]
      by_cases comma : lexeme.kind = .comma
      · rw [if_pos comma]
        exact .skip (by rw [readArguments, if_neg closing, if_pos comma, Outcome.ending_relax])
      · rw [if_neg comma]
        exact .gather follows (Nat.le_refl _)
          (by rw [readArguments, if_neg closing, if_neg comma, Outcome.ending_relax]; rfl)
          fun argument middle _ => Outcome.ending_map_append [argument] (readArguments middle)

/-- Under a limit the procedures follow the readers where not too many lexemes are unread. -/
structure Suffices (limit : Nat) : Prop where
  expression : ∀ {lexemes : List Lexeme}, 3 * lexemes.length + 3 ≤ limit →
    Follows (routines limit).expression lexemes (readExpression lexemes).ending
  primary : ∀ {lexemes : List Lexeme}, 3 * lexemes.length + 2 ≤ limit →
    Follows (routines limit).primary lexemes (readPrimary lexemes).ending
  operand : ∀ {lexemes : List Lexeme}, 3 * lexemes.length + 1 ≤ limit →
    Follows (routines limit).operand lexemes (readOperand lexemes).ending

namespace Suffices

theorem nextExpression (inner : Suffices limit) (enough : 3 * lexemes.length + 2 ≤ limit) :
    Follows (routines limit).nextExpression lexemes (readExpression lexemes).ending := by
  rw [readExpression]
  refine (inner.primary enough).andMaybe fun left rest shorter => ?_
  apply Follows.peek
  cases rest with
  | nil => exact .pure _ _
  | cons lexeme behind =>
      dsimp only [List.head?_cons]
      have fewer : 3 * behind.length + 3 ≤ limit := by
        rw [List.length_cons] at shorter
        omega
      cases operator? lexeme.kind with
      | none => exact .pure _ _
      | some operator =>
          simp only [Outcome.ending_relax]
          exact .advance (inner.expression fewer).map

theorem arguments (inner : Suffices limit) (enough : 3 * lexemes.length + 2 ≤ limit) :
    Follows (loop (argumentTurn (routines limit).primary) limit []) lexemes
      (readArguments lexemes).ending :=
  follows_gathering (fun front _ _ => turns_argument front (inner.primary (by omega)))
    (Nat.le_refl lexemes.length) (by omega)

theorem nextPrimary (inner : Suffices limit) (enough : 3 * lexemes.length + 1 ≤ limit) :
    Follows ((routines limit).nextPrimary limit) lexemes (readPrimary lexemes).ending := by
  rw [readPrimary]
  refine (inner.operand enough).andMaybe fun operand rest shorter => ?_
  apply Follows.peek
  cases rest with
  | nil => exact .pure _ _
  | cons lexeme behind =>
      dsimp only [List.head?_cons]
      have fewer : 3 * behind.length + 3 ≤ limit := by
        rw [List.length_cons] at shorter
        omega
      cases lexeme.kind with
      | period =>
          simp only [Outcome.ending_relax]
          exact .advance (Follows.expectName behind).map
      | leftParen =>
          simp only [Outcome.ending_relax]
          exact .advance ((inner.arguments (by omega)).andThen fun _ middle _ =>
            (Follows.expect _ middle).map)
      | leftBracket =>
          simp only [Outcome.ending_relax]
          exact .advance ((inner.expression fewer).andThen fun _ middle _ =>
            (Follows.expect _ middle).map)
      | _ => exact .pure _ _

theorem nextOperand (inner : Suffices limit) (enough : 3 * lexemes.length ≤ limit) :
    Follows (routines limit).nextOperand lexemes (readOperand lexemes).ending := by
  rw [readOperand.eq_def]
  apply Follows.peek
  cases lexemes with
  | nil => exact .refuse _ _
  | cons lexeme rest =>
      dsimp only [List.head?_cons]
      cases kind : lexeme.kind with
      | identifier => exact (Follows.takeName kind).bind (.pure _ _)
      | integer => exact .advance (.pure _ _)
      | string => exact .advance (.pure _ _)
      | leftParen =>
          simp only [Outcome.ending_relax]
          exact .advance ((inner.expression enough).andThen fun _ middle _ =>
            (Follows.expect _ middle).map)
      | _ => exact .refuse _ _

end Suffices

/-- Every limit suffices. -/
theorem suffices_limit (limit : Nat) : Suffices limit := by
  induction limit with
  | zero => exact ⟨nofun, nofun, nofun⟩
  | succ limit inner =>
      exact ⟨fun enough => inner.nextExpression (by omega),
        fun enough => inner.nextPrimary (by omega), fun enough => inner.nextOperand (by omega)⟩

/-- A limit that is enough in front of some lexemes is enough in front of fewer. -/
theorem follows_expression (enough : 3 * lexemes.length + 3 ≤ limit) {nearer : List Lexeme}
    (fewer : nearer.length ≤ lexemes.length) :
    Follows (routines limit).expression nearer (readExpression nearer).ending :=
  (suffices_limit limit).expression (by omega)

end ContractLens.Grammar
