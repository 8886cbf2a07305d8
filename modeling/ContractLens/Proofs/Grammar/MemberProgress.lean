import ContractLens.Proofs.Grammar.Follow
import ContractLens.Proofs.Grammar.ProgramDerivation

/-!
# Progress in members

As long as the procedure for expressions follows its reader, the procedures for bodies,
functions and state variables follow theirs, and no loop takes more turns than there are
lexemes in front of the cursor.
-/

namespace ContractLens.Grammar

open Step

variable {expression : Step Expression} {lexemes : List Lexeme}

/-! ## Headers -/

theorem follows_visibilityWord (lexemes : List Lexeme) :
    Follows visibilityWord lexemes (readVisibility lexemes).ending := by
  apply Follows.peek
  cases lexemes with
  | nil => exact .pure _ _
  | cons lexeme rest =>
      rw [readVisibility]
      dsimp only [List.head?_cons]
      cases if lexeme.kind = .identifier then Visibility.ofWord? lexeme.literal else none with
      | some visibility => exact .advance (.pure _ _)
      | none => exact .pure _ _

theorem follows_nextFunctionName (keyword : Lexeme) (rest : List Lexeme) :
    Follows nextFunctionName (keyword :: rest) (readFunctionName keyword rest).ending := by
  apply Follows.peek
  dsimp only [List.head?_cons, Option.any_some]
  rw [readFunctionName]
  by_cases word : isWord "constructor" keyword
  · simp only [word]
    exact .takeName (kind_of_isWord word)
  · simp only [word, Bool.false_eq_true, if_false, Outcome.ending_relax]
    exact .advance (.expectName rest)

theorem turns_header (type : String) (seen : Option Visibility × Bool) (lexemes : List Lexeme) :
    Turns (headerTurn type seen) pure
      (fun seen lexemes => (readHeader type seen.1 seen.2 lexemes).ending) lexemes
      (readHeader type seen.1 seen.2 lexemes).ending := by
  apply Turns.peek
  cases lexemes with
  | nil => exact .refused (.refuse _ _)
  | cons lexeme rest =>
      dsimp only [List.head?_cons]
      by_cases name : lexeme.kind = .identifier
      · by_cases constant : lexeme.literal = "constant"
        · rw [readHeader, if_pos name, if_pos constant, if_pos name, if_pos constant,
            Outcome.ending_relax]
          exact .pass _ _ _
        rw [readHeader, if_pos name, if_neg constant, if_pos name, if_neg constant]
        cases Visibility.ofWord? lexeme.literal with
        | some stated =>
            dsimp only
            rw [Outcome.ending_relax]
            exact .pass _ _ _
        | none => exact .done ((Follows.takeName name).bind (.pure _ _)) (.pure _ _)
      · rw [readHeader, if_neg name, if_neg name, Outcome.ending_relax]
        exact .pass _ _ _

/-! ## Statements -/

/-- Read what is left of a statement behind one of its expressions. -/
def readFurther (lexemes : List Lexeme) : Outcome (List Expression) lexemes.length :=
  if endsStatement lexemes then
    (accept .semicolon lexemes).map fun _ => []
  else
    readStatement lexemes

theorem readStatement_eq (lexemes : List Lexeme) :
    readStatement lexemes = (readExpression lexemes).andThen fun first rest _ =>
      (readFurther rest).map ([first] ++ ·) := by
  rw [readStatement]
  congr
  funext first rest _
  rw [readFurther]
  split
  · cases accept .semicolon rest <;> rfl
  · rfl

theorem gathered_readFurther (front : List Expression) (ends : endsStatement lexemes) :
    gathered front (readFurther lexemes).ending =
      ((accept .semicolon lexemes).map fun _ => front).ending := by
  rw [readFurther, if_pos ends]
  cases accept .semicolon lexemes <;> simp [gathered, Except.map, Outcome.map]

theorem turns_statement (front : List Expression)
    (follows : Follows expression lexemes (readExpression lexemes).ending) :
    Gathers (statementTurn expression front)
      (fun expressions => expect .semicolon >>= fun _ => pure expressions)
      readFurther front lexemes := by
  have stops : lexemes.head?.all (fun lexeme =>
      lexeme.kind = .semicolon || lexeme.kind = .rightBrace) = endsStatement lexemes := by
    cases lexemes <;> rfl
  apply Gathers.peek
  rw [stops]
  by_cases ends : endsStatement lexemes
  · rw [if_pos ends, Gathers, gathered_readFurther front ends]
    exact Turns.done (.pure _ _) (Follows.expect .semicolon lexemes).map
  · rw [if_neg ends]
    have reads : (readFurther lexemes).ending = ((readExpression lexemes).andMaybe
        fun first rest _ => ((readFurther rest).map ([first] ++ ·)).relax).ending := by
      rw [readFurther, if_neg ends, readStatement_eq]
      rfl
    exact .gather follows (Nat.le_refl _) reads fun first rest _ => by
      rw [Outcome.ending_relax, Outcome.ending_map_append]

section Loops

variable {most turns : Nat}
  (follows : ∀ {lexemes : List Lexeme}, lexemes.length ≤ most →
    Follows expression lexemes (readExpression lexemes).ending)
  (enough : most < turns)

include follows enough

theorem follows_nextStatement (within : lexemes.length ≤ most) :
    Follows (nextStatement expression turns) lexemes (readStatement lexemes).ending := by
  rw [readStatement_eq]
  refine (follows within).andThen fun first rest shorter => ?_
  rw [Outcome.ending_map_append]
  exact follows_loop_then (fun front _ fewer => turns_statement front (follows fewer))
    (Nat.le_of_lt (Nat.lt_of_lt_of_le shorter within)) (by omega) [first]

/-! ## Bodies -/

theorem turns_body (front : List Expression) (within : lexemes.length ≤ most) :
    Gathers (bodyTurn expression turns front) pure readBody front lexemes := by
  apply Gathers.peek
  cases lexemes with
  | nil => exact .leave (.pure _ _) (by rw [readBody]; rfl)
  | cons lexeme rest =>
      dsimp only [List.head?_cons]
      by_cases closing : lexeme.kind = .rightBrace
      · rw [if_pos closing]
        exact .leave (.advance (.pure _ _)) (by rw [readBody, if_pos closing]; rfl)
      rw [if_neg closing]
      by_cases semicolon : lexeme.kind = .semicolon
      · rw [if_pos semicolon]
        exact .skip (by rw [readBody, if_neg closing, if_pos semicolon, Outcome.ending_relax])
      · rw [if_neg semicolon]
        exact .gather (follows_nextStatement follows enough within) (Nat.le_refl _)
          (by rw [readBody, if_neg closing, if_neg semicolon, Outcome.ending_relax])
          fun statement middle _ => Outcome.ending_map_append statement (readBody middle)

theorem follows_body (within : lexemes.length ≤ most) :
    Follows (loop (bodyTurn expression turns) turns []) lexemes (readBody lexemes).ending :=
  follows_gathering (fun front _ => turns_body follows enough front) within
    (Nat.lt_of_le_of_lt within enough)

/-! ## Functions -/

/-- A function is passed from the word on that announces it. -/
theorem follows_nextFunction (keyword : Lexeme) {rest : List Lexeme}
    (within : rest.length ≤ most) :
    Follows (nextFunction expression turns) (keyword :: rest)
      (readFunction keyword rest).ending := by
  refine (follows_nextFunctionName keyword rest).andThen fun name afterName _ => ?_
  refine (Follows.expect .leftParen afterName).andThen fun _ inside _ => ?_
  refine (Follows.expect .rightParen inside).andMaybe fun _ afterParens _ => ?_
  refine (follows_visibilityWord afterParens).andThen fun visibility afterWord _ => ?_
  refine (Follows.expect .leftBrace afterWord).andMaybe fun _ body _ => ?_
  exact (follows_body follows enough (by omega)).map

/-! ## State variables -/

theorem follows_nextVariable {type : Lexeme} {rest : List Lexeme} (kind : type.kind = .identifier)
    (within : rest.length ≤ most) :
    Follows (nextVariable expression turns) (type :: rest)
      (readVariable (nameOf type) rest).ending := by
  refine (Follows.takeName kind).bind ?_
  refine (follows_loop (fun seen lexemes _ => turns_header type.literal seen lexemes) within
    (by omega) (none, false)).andThen fun header afterName _ => ?_
  refine (Follows.expect .assign afterName).andThen fun _ value _ => ?_
  refine (follows (by omega)).andThen fun value afterValue _ => ?_
  exact (Follows.expect .semicolon afterValue).map

end Loops

end ContractLens.Grammar
