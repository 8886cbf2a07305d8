import ContractLens.Proofs.Grammar.MemberProgress
import ContractLens.Proofs.Grammar.Progress

/-!
# Progress in programs

A limit of three calls for every lexeme, and three more, is never reached in reading a
program: every procedure halts or returns behind a lexeme, and every turn of a loop takes
a lexeme, leaves the loop or halts.
-/

namespace ContractLens.Grammar

open Step

variable {α β σ : Type} {expression : Step Expression} {most turns : Nat}
  {lexemes : List Lexeme}

/-! ## Bases -/

theorem turns_base (front : List Ident) (lexemes : List Lexeme) :
    Gathers (baseTurn front) pure readBases front lexemes := by
  have name := Follows.expectName lexemes
  rw [Gathers, readBases]
  cases read : acceptName lexemes with
  | refused cause rest =>
      rw [read] at name
      have halts : Follows (baseTurn front) lexemes (.error cause, rest) := name.bind_refused
      exact .refused halts
  | accepted base rest shorter =>
      rw [read, Outcome.ending_accepted] at name
      rw [Outcome.andMaybe_accepted, Outcome.ending_within]
      refine .bind name (Nat.le_of_lt shorter) (.peek ?_)
      cases rest with
      | nil => exact .done (.pure _ _) (.pure _ _)
      | cons lexeme behind =>
          dsimp only [List.head?_cons]
          by_cases comma : lexeme.kind = .comma
          · have more := Outcome.ending_map_append [base] (readBases behind)
            rw [if_pos comma, if_pos comma, Outcome.ending_relax, Outcome.ending_relax]
            change Turns _ _ _ _ (gathered front ((readBases behind).map ([base] ++ ·)).ending)
            rw [more, gathered_gathered]
            exact .pass _ _ _
          · rw [if_neg comma, if_neg comma]
            exact .done (.pure _ _) (.pure _ _)

theorem follows_inheritance (enough : lexemes.length < turns) :
    Follows (inheritance turns) lexemes (readInheritance lexemes).ending := by
  apply Follows.peek
  cases lexemes with
  | nil => exact .pure _ _
  | cons lexeme rest =>
      rw [readInheritance]
      dsimp only [List.head?_cons]
      by_cases word : isWord "is" lexeme
      · rw [if_pos word, if_pos word, Outcome.ending_relax, Outcome.ending_relax]
        exact .advance (follows_gathering (fun front lexemes _ => turns_base front lexemes)
          (Nat.le_refl rest.length) (by rw [List.length_cons] at enough; omega))
      · rw [if_neg word, if_neg word]
        exact .pure _ _

/-! ## Pragmas and imports -/

theorem turns_pragma (name : Ident) (value : String) (lexemes : List Lexeme) :
    Turns (pragmaTurn name.name value)
      (fun value => advance >>= fun _ => pure ⟨name, value⟩)
      (fun value lexemes =>
        ((readPragmaValue name.name lexemes).map fun tail => ⟨name, value ++ tail⟩).ending)
      lexemes ((readPragmaValue name.name lexemes).map fun tail =>
        (⟨name, value ++ tail⟩ : Pragma)).ending := by
  apply Turns.peek
  cases lexemes with
  | nil => exact .refused (.refuse _ _)
  | cons lexeme rest =>
      dsimp only [List.head?_cons]
      by_cases semicolon : lexeme.kind = .semicolon
      · rw [readPragmaValue, if_pos semicolon, if_pos semicolon]
        have ending : ((Outcome.take "" lexeme rest).map fun tail =>
            (⟨name, value ++ tail⟩ : Pragma)).ending = (.ok ⟨name, value⟩, rest) := by
          simp [Outcome.take, Outcome.map]
        rw [ending]
        exact .done (.pure _ _) (.advance (.pure _ _))
      · rw [readPragmaValue, if_neg semicolon, if_neg semicolon]
        have ending : (((readPragmaValue name.name rest).map (lexeme.literal ++ ·)).relax.map
            fun tail => (⟨name, value ++ tail⟩ : Pragma)).ending =
            ((readPragmaValue name.name rest).map fun tail =>
              (⟨name, value ++ lexeme.literal ++ tail⟩ : Pragma)).ending := by
          cases readPragmaValue name.name rest <;>
            simp [Outcome.map, Outcome.relax, Outcome.within, String.append_assoc]
        rw [ending]
        exact .pass _ _ _

theorem follows_nextPragma (keyword : Lexeme) (enough : lexemes.length < turns) :
    Follows (nextPragma turns) (keyword :: lexemes) (readPragma lexemes).ending := by
  refine .advance ((Follows.expectName lexemes).andThen fun name rest shorter => ?_)
  have whole := follows_loop_then (fun value lexemes _ => turns_pragma name value lexemes)
    (Nat.le_refl rest.length) (Nat.lt_trans shorter enough) ""
  simpa only [String.empty_append] using whole

theorem follows_nextImport (keyword : Lexeme) (lexemes : List Lexeme) :
    Follows nextImport (keyword :: lexemes) (readImport lexemes).ending := by
  refine .advance (.peek ?_)
  cases lexemes with
  | nil => exact .refuse _ _
  | cons lexeme rest => exact .advance (.pure _ _)

/-! ## Contracts -/

section Loops

variable (follows : ∀ {lexemes : List Lexeme}, lexemes.length ≤ most →
    Follows expression lexemes (readExpression lexemes).ending)
  (enough : most < turns)

include follows enough

theorem turns_member (front : List Member) (within : lexemes.length ≤ most) :
    Gathers (memberTurn expression turns front) pure readMembers front lexemes := by
  apply Gathers.peek
  cases lexemes with
  | nil => exact .leave (.pure _ _) (by rw [readMembers]; rfl)
  | cons lexeme rest =>
      have fewer : rest.length ≤ most := Nat.le_of_succ_le within
      dsimp only [List.head?_cons]
      by_cases closing : lexeme.kind = .rightBrace
      · rw [if_pos closing]
        exact .leave (.advance (.pure _ _)) (by rw [readMembers, if_pos closing]; rfl)
      rw [if_neg closing]
      by_cases announced : (isWord "constructor" lexeme || isWord "function" lexeme) = true
      · rw [if_pos announced]
        exact .gather (follows_nextFunction follows enough lexeme fewer) (Nat.le_refl _)
          (by rw [readMembers, if_neg closing, if_pos announced, Outcome.ending_relax]; rfl)
          fun function middle _ =>
            Outcome.ending_map_append [.function function] (readMembers middle)
      rw [if_neg announced]
      by_cases name : lexeme.kind = .identifier
      · rw [if_pos name]
        exact .gather (follows_nextVariable follows enough name fewer) (Nat.le_succ _)
          (by
            rw [readMembers, if_neg closing, if_neg announced, if_pos name, Outcome.ending_relax,
              Outcome.ending_relax]
            rfl)
          fun declaration middle _ =>
            Outcome.ending_map_append [.stateVariable declaration] (readMembers middle)
      · rw [if_neg name]
        exact .skip (by
          rw [readMembers, if_neg closing, if_neg announced, if_neg name, Outcome.ending_relax])

theorem follows_nextContract (keyword : Lexeme) (within : lexemes.length ≤ most) :
    Follows (nextContract expression turns) (keyword :: lexemes) (readContract lexemes).ending := by
  refine .advance ((Follows.expectName lexemes).andMaybe fun name afterName _ => ?_)
  refine (follows_inheritance (by omega)).andThen fun bases afterBases _ => ?_
  refine (Follows.expect .leftBrace afterBases).andMaybe fun _ inside _ => ?_
  exact (follows_gathering (fun front _ => turns_member follows enough front)
    (by omega) (by omega)).map

/-! ## Programs -/

theorem turns_item (front : List Item) (within : lexemes.length ≤ most) :
    Gathers (itemTurn expression turns front) pure readItems front lexemes := by
  apply Gathers.peek
  cases lexemes with
  | nil => exact .leave (.pure _ _) (by rw [readItems]; rfl)
  | cons lexeme rest =>
      have fewer : rest.length ≤ most := Nat.le_of_succ_le within
      dsimp only [List.head?_cons]
      by_cases pragma : isWord "pragma" lexeme
      · rw [if_pos pragma]
        exact .gather (follows_nextPragma lexeme (by omega)) (Nat.le_succ _)
          (by rw [readItems, if_pos pragma, Outcome.ending_relax, Outcome.ending_relax]; rfl)
          fun pragma middle _ => Outcome.ending_map_append [.pragma pragma] (readItems middle)
      rw [if_neg pragma]
      by_cases importing : isWord "import" lexeme
      · rw [if_pos importing]
        exact .gather (follows_nextImport lexeme rest) (Nat.le_succ _)
          (by
            rw [readItems, if_neg pragma, if_pos importing, Outcome.ending_relax,
              Outcome.ending_relax]
            rfl)
          fun item middle _ => Outcome.ending_map_append [.importing item] (readItems middle)
      rw [if_neg importing]
      by_cases contract : isWord "contract" lexeme
      · rw [if_pos contract]
        exact .gather (follows_nextContract follows enough lexeme fewer) (Nat.le_succ _)
          (by
            rw [readItems, if_neg pragma, if_neg importing, if_pos contract,
              Outcome.ending_relax, Outcome.ending_relax]
            rfl)
          fun contract middle _ => Outcome.ending_map_append [.contract contract] (readItems middle)
      · rw [if_neg contract]
        exact .skip (by
          rw [readItems, if_neg pragma, if_neg importing, if_neg contract, Outcome.ending_relax])

end Loops

/-- Reading a program ends, with one advance for every lexeme that is passed. -/
theorem follows_wholeProgram {limit : Nat} (enough : 3 * lexemes.length + 3 ≤ limit) :
    Follows (wholeProgram limit) lexemes (readProgram lexemes).ending := by
  have most : lexemes.length < limit := by omega
  exact (follows_gathering (fun front _ => turns_item (follows_expression enough) most front)
    (Nat.le_refl lexemes.length) most).map

/-! ## What is promised -/

/-- The procedure does what its reader does, and returns only behind a lexeme. -/
structure Progresses (step : Step α) (lexemes : List Lexeme)
    (ending : Except Cause α × List Lexeme) : Prop where
  follows : Follows step lexemes ending
  consumes : ∀ value, ending.1 = .ok value → ending.2.length < lexemes.length

theorem Follows.progresses {step : Step α} {bound : Nat} {outcome : Outcome α bound}
    (follows : Follows step lexemes outcome.ending) (takes : bound ≤ lexemes.length) :
    Progresses step lexemes outcome.ending where
  follows := follows
  consumes value accepted := by
    cases outcome with
    | accepted value rest shorter => exact Nat.lt_of_lt_of_le shorter takes
    | refused cause rest => cases accepted

/-- The turn ends, and there is another one only behind a lexeme. -/
def TurnProgresses (turn : Step (Turn σ α)) (lexemes : List Lexeme) : Prop :=
  ∃ ending, Follows turn lexemes ending ∧
    ∀ state, ending.1 = .ok (.again state) → ending.2.length < lexemes.length

theorem Turns.progresses {turn : Step (Turn σ α)} {next : α → Step β}
    {goesOn : σ → List Lexeme → Except Cause β × List Lexeme}
    {ending : Except Cause β × List Lexeme} (turns : Turns turn next goesOn lexemes ending) :
    TurnProgresses turn lexemes := by
  cases turns with
  | again takes shorter => exact ⟨_, takes, fun _ _ => shorter⟩
  | done leaves behind => exact ⟨_, leaves, nofun⟩
  | refused halts => exact ⟨_, halts, nofun⟩

/-- With this limit no procedure and no loop stands still in front of the lexemes. -/
structure MakesProgress (limit : Nat) (lexemes : List Lexeme) : Prop where
  expression : Progresses (routines limit).expression lexemes (readExpression lexemes).ending
  primary : Progresses (routines limit).primary lexemes (readPrimary lexemes).ending
  operand : Progresses (routines limit).operand lexemes (readOperand lexemes).ending
  function : ∀ {keyword rest}, lexemes = keyword :: rest →
    Progresses (nextFunction (routines limit).expression limit) lexemes
      (readFunction keyword rest).ending
  stateVariable : ∀ {type rest}, lexemes = type :: rest → type.kind = .identifier →
    Progresses (nextVariable (routines limit).expression limit) lexemes
      (readVariable (nameOf type) rest).ending
  contract : ∀ {keyword rest}, lexemes = keyword :: rest →
    Progresses (nextContract (routines limit).expression limit) lexemes (readContract rest).ending
  pragma : ∀ {keyword rest}, lexemes = keyword :: rest →
    Progresses (nextPragma limit) lexemes (readPragma rest).ending
  importing : ∀ {keyword rest}, lexemes = keyword :: rest →
    Progresses nextImport lexemes (readImport rest).ending
  argumentLoop : ∀ arguments,
    TurnProgresses (argumentTurn (routines limit).primary arguments) lexemes
  statementLoop : ∀ expressions,
    TurnProgresses (statementTurn (routines limit).expression expressions) lexemes
  bodyLoop : ∀ body, TurnProgresses (bodyTurn (routines limit).expression limit body) lexemes
  headerLoop : ∀ type seen, TurnProgresses (headerTurn type seen) lexemes
  memberLoop : ∀ members,
    TurnProgresses (memberTurn (routines limit).expression limit members) lexemes
  baseLoop : ∀ bases, TurnProgresses (baseTurn bases) lexemes
  pragmaLoop : ∀ name value, TurnProgresses (pragmaTurn name value) lexemes
  itemLoop : ∀ items, TurnProgresses (itemTurn (routines limit).expression limit items) lexemes
  program : Follows (wholeProgram limit) lexemes (readProgram lexemes).ending
  /-- A parse advances at most once for every lexeme of the text. -/
  parses : ∀ text, lexemesOf text = lexemes → ∃ after : Cursor, after.advances ≤ lexemes.length ∧
    match (parse text).1 with
    | .ok program => wholeProgram limit ⟨lexemes, 0⟩ = .ok program after
    | .error error => wholeProgram limit ⟨lexemes, 0⟩ = .error (.refused error.cause) after ∧
        error.found = lookahead text.length after.unread

/-- A parse of a text is a run of the cursor, which ends in front of what is not read. -/
theorem follows_parse {limit : Nat} {text : String}
    (enough : 3 * (lexemesOf text).length + 3 ≤ limit) :
    ∃ after : Cursor, after.unread = (readProgram (lexemesOf text)).rest ∧
      after.advances + after.unread.length = (lexemesOf text).length ∧
      match (parse text).1 with
      | .ok program => wholeProgram limit ⟨lexemesOf text, 0⟩ = .ok program after
      | .error error =>
          wholeProgram limit ⟨lexemesOf text, 0⟩ = .error (.refused error.cause) after ∧
            error.found = lookahead text.length after.unread := by
  obtain ⟨passed, whole, runs⟩ := follows_wholeProgram enough
  have counted := congrArg List.length whole
  rw [List.length_append] at counted
  have run := runs 0
  rw [Nat.zero_add] at run
  rw [parse, parseInto]
  cases read : readProgram (lexemesOf text) with
  | accepted program rest shorter =>
      rw [read] at run counted
      exact ⟨_, rfl, counted.symm, run⟩
  | refused cause rest =>
      rw [read] at run counted
      exact ⟨_, rfl, counted.symm, run, rfl⟩

/-- Whatever the lexemes are, every procedure and every loop makes progress. -/
theorem makesProgress {limit : Nat} (enough : 3 * lexemes.length + 3 ≤ limit) :
    MakesProgress limit lexemes := by
  have most : lexemes.length < limit := by omega
  have procedures := suffices_limit limit
  have follows {nearer : List Lexeme} (fewer : nearer.length ≤ lexemes.length) :=
    follows_expression enough fewer
  have self : lexemes.length ≤ lexemes.length := Nat.le_refl _
  exact {
    expression := (follows self).progresses self
    primary := (procedures.primary (by omega)).progresses self
    operand := (procedures.operand (by omega)).progresses self
    function := fun {keyword rest} shape => by
      subst shape
      exact (follows_nextFunction follows most keyword (Nat.le_succ _)).progresses (Nat.le_refl _)
    stateVariable := fun {type rest} shape kind => by
      subst shape
      exact (follows_nextVariable follows most kind (Nat.le_succ _)).progresses (Nat.le_succ _)
    contract := fun {keyword rest} shape => by
      subst shape
      exact (follows_nextContract follows most keyword (Nat.le_succ _)).progresses (Nat.le_succ _)
    pragma := fun {keyword rest} shape => by
      subst shape
      exact (follows_nextPragma keyword (Nat.lt_of_succ_lt most)).progresses (Nat.le_succ _)
    importing := fun {keyword rest} shape => by
      subst shape
      exact (follows_nextImport keyword rest).progresses (Nat.le_succ _)
    argumentLoop := fun arguments =>
      (turns_argument arguments (procedures.primary (by omega))).progresses
    statementLoop := fun expressions => (turns_statement expressions (follows self)).progresses
    bodyLoop := fun body => (turns_body follows most body self).progresses
    headerLoop := fun type seen => (turns_header type seen lexemes).progresses
    memberLoop := fun members => (turns_member follows most members self).progresses
    baseLoop := fun bases => (turns_base bases lexemes).progresses
    pragmaLoop := fun name value => (turns_pragma ⟨name, 0⟩ value lexemes).progresses
    itemLoop := fun items => (turns_item follows most items self).progresses
    program := follows_wholeProgram enough
    parses := fun text same => by
      subst same
      obtain ⟨after, _, counted, run⟩ := follows_parse enough
      exact ⟨after, by omega, run⟩ }

/-- A text that ends between the arguments of a call. -/
theorem makesProgress_unfinished :
    3 * (lexemesOf "contract A \x7b function f() \x7b g(1, ").length + 3 ≤ 39 ∧
      MakesProgress 39 (lexemesOf "contract A \x7b function f() \x7b g(1, ") :=
  have enough : 3 * (lexemesOf "contract A \x7b function f() \x7b g(1, ").length + 3 ≤ 39 := by
    decide +kernel
  ⟨enough, makesProgress enough⟩

end ContractLens.Grammar
