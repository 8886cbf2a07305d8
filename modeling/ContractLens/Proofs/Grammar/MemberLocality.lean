import ContractLens.Proofs.Grammar.Locality
import ContractLens.Proofs.Grammar.MemberRejection

/-!
# Locality of reading members

Derivations and rejections of statements, bodies, functions and state variables
carry over to other offsets and to other lexemes behind them.  A statement and a
state variable end with a semicolon, whatever follows.  A body that is not closed
is only a body at the end of the input.
-/

namespace ContractLens.Grammar

open Phrase

variable {lexemes rest : List Lexeme} {cause : Cause}

/-! ## Bodies -/

theorem SameHead.endsStatement_eq {first second : List Lexeme} (same : SameHead first second) :
    endsStatement second = endsStatement first := by
  cases first with
  | nil =>
      cases second with
      | nil => rfl
      | cons other others => cases same
  | cons lexeme behind =>
      obtain ⟨other, others, rfl, symbol⟩ := same.exists_cons
      have kind : other.kind = lexeme.kind := congrArg Symbol.kind symbol
      simp [endsStatement, kind]

/-- A statement carries over to other offsets, and to any lexemes behind it. -/
theorem ReadsStatement.relocated {statement : List Expression}
    (reads : ReadsStatement lexemes statement rest) :
    ∃ taken, taken ≠ [] ∧ lexemes = taken ++ rest ∧ ∀ move behind,
      ReadsStatement (taken.map (Lexeme.relocate move) ++ behind)
        (statement.map (Expression.relocate move)) behind := by
  induction reads with
  | @last lexemes rest expression stop reads semicolon =>
      obtain ⟨taken, rfl, again⟩ := reads.relocated
      refine ⟨taken ++ [stop], by simp, by simp, fun move behind => ?_⟩
      have first := again move (stop.relocate move :: behind) .of_cons
      simpa using ReadsStatement.last first semicolon
  | @more lexemes middle rest first others reads goesOn _ ih =>
      obtain ⟨taken, notEmpty, rfl, again⟩ := ih
      obtain ⟨front, rfl, firstAgain⟩ := reads.relocated
      refine ⟨front ++ taken, by simp [notEmpty], by simp, fun move behind => ?_⟩
      obtain ⟨next, taken, rfl⟩ := List.exists_cons_of_ne_nil notEmpty
      have first := firstAgain move
        (next.relocate move :: (taken.map (Lexeme.relocate move) ++ behind)) .of_cons
      simpa using ReadsStatement.more first goesOn (again move behind)

/-- A rejection of a statement carries over to lexemes with the same one in front. -/
theorem RejectsStatement.relocated (rejects : RejectsStatement lexemes cause rest) :
    ∃ taken, lexemes = taken ++ rest ∧ ∀ move behind, SameHead rest behind →
      RejectsStatement (taken.map (Lexeme.relocate move) ++ behind) cause behind := by
  induction rejects with
  | inExpression expression =>
      obtain ⟨taken, rfl, again⟩ := expression.relocated
      exact ⟨taken, rfl, fun move behind same => .inExpression (again move behind same)⟩
  | noStop expression ends lacks =>
      obtain ⟨taken, rfl, again⟩ := expression.relocated
      refine ⟨taken, rfl, fun move behind same => ?_⟩
      exact .noStop (again move behind (.inl same)) (same.endsStatement_eq.trans ends)
        (same.lacks lacks)
  | @behindExpression lexemes middle rest first cause expression goesOn _ ih =>
      obtain ⟨taken, rfl, again⟩ := ih
      obtain ⟨front, rfl, firstAgain⟩ := expression.relocated
      refine ⟨front ++ taken, by simp, fun move behind same => ?_⟩
      have alike := same.append move taken
      have first := firstAgain move _ (.inl alike)
      simpa using RejectsStatement.behindExpression first (alike.endsStatement_eq.trans goesOn)
        (again move behind same)

/-- A body carries over to other offsets; one that ends with the input goes on to end there. -/
theorem ReadsBody.relocated {body : List Expression} (reads : ReadsBody lexemes body rest) :
    ∃ taken, lexemes = taken ++ rest ∧ ∀ move behind, (rest = [] → behind = []) →
      ReadsBody (taken.map (Lexeme.relocate move) ++ behind)
        (body.map (Expression.relocate move)) behind := by
  induction reads with
  | atEnd =>
      refine ⟨[], rfl, fun move behind ends => ?_⟩
      rw [ends rfl]
      exact .atEnd
  | @closed closing rest brace => exact ⟨[closing], rfl, fun move behind _ => .closed brace⟩
  | @empty stop lexemes rest body semicolon _ ih =>
      obtain ⟨taken, rfl, again⟩ := ih
      exact ⟨stop :: taken, rfl, fun move behind ends => .empty semicolon (again move behind ends)⟩
  | statement statement _ ih =>
      obtain ⟨taken, rfl, again⟩ := ih
      obtain ⟨front, _, rfl, statementAgain⟩ := statement.relocated
      refine ⟨front ++ taken, by simp, fun move behind ends => ?_⟩
      simpa using ReadsBody.statement (statementAgain move _) (again move behind ends)

theorem RejectsBody.relocated (rejects : RejectsBody lexemes cause rest) :
    ∃ taken, lexemes = taken ++ rest ∧ ∀ move behind, SameHead rest behind →
      RejectsBody (taken.map (Lexeme.relocate move) ++ behind) cause behind := by
  induction rejects with
  | @behindStop stop lexemes rest cause semicolon _ ih =>
      obtain ⟨taken, rfl, again⟩ := ih
      exact ⟨stop :: taken, rfl, fun move behind same =>
        .behindStop semicolon (again move behind same)⟩
  | @inStatement first lexemes rest cause noBrace noSemicolon statement =>
      obtain ⟨taken, whole, again⟩ := statement.relocated
      refine ⟨taken, whole, fun move behind same => ?_⟩
      have alike := same.append move taken
      rw [← whole] at alike
      obtain ⟨other, others, begins, symbol⟩ := alike.exists_cons
      have kind : other.kind = first.kind := congrArg Symbol.kind symbol
      have rejects := again move behind same
      rw [begins] at rejects ⊢
      exact .inStatement (kind ▸ noBrace) (kind ▸ noSemicolon) rejects
  | behindStatement statement _ ih =>
      obtain ⟨taken, rfl, again⟩ := ih
      obtain ⟨front, _, rfl, statementAgain⟩ := statement.relocated
      refine ⟨front ++ taken, by simp, fun move behind same => ?_⟩
      simpa using RejectsBody.behindStatement (statementAgain move _) (again move behind same)

/-! ## Functions -/

theorem StatesVisibility.relocated {words : List Lexeme} {visibility : Visibility}
    (states : StatesVisibility words visibility) (move : Nat → Nat) :
    StatesVisibility (words.map (Lexeme.relocate move)) visibility := by
  cases states with
  | word identifier stated => exact .word identifier stated
  | silent => exact .silent

theorem RejectsBrace.relocated (rejects : RejectsBrace lexemes rest) :
    ∃ taken, lexemes = taken ++ rest ∧ ∀ move behind, SameHead rest behind →
      RejectsBrace (taken.map (Lexeme.relocate move) ++ behind) behind := by
  cases rejects with
  | @behindWord word _ _ identifier stated lacks =>
      exact ⟨[word], rfl, fun move behind same =>
        .behindWord identifier stated (same.lacks lacks)⟩
  | noWord silent lacks =>
      refine ⟨[], rfl, fun move behind same => .noWord ?_ (same.lacks lacks)⟩
      exact same.forall_head (fun symbol => symbol.kind = .identifier →
        Visibility.ofWord? symbol.literal = none) silent

/-- A function carries over from its name on, if what follows its body allows for that. -/
theorem ReadsFunction.relocated {function : ContractFunction}
    (reads : ReadsFunction lexemes function rest) :
    ∃ taken, taken ≠ [] ∧ lexemes = taken ++ rest ∧ ∀ move behind, (rest = [] → behind = []) →
      ReadsFunction (taken.map (Lexeme.relocate move) ++ behind) (function.relocate move)
        behind := by
  cases reads with
  | @intro name opening closing brace words inside rest visibility body identifier opens closes
      states braces reads =>
      obtain ⟨taken, rfl, again⟩ := reads.relocated
      refine ⟨name :: opening :: closing :: (words ++ brace :: taken), by simp, by simp,
        fun move behind ends => ?_⟩
      have moved : ReadsFunction (name.relocate move :: opening.relocate move ::
          closing.relocate move :: (words.map (Lexeme.relocate move) ++
            brace.relocate move :: (taken.map (Lexeme.relocate move) ++ behind)))
          ⟨nameOf (name.relocate move), visibility, body.map (Expression.relocate move)⟩ behind :=
        .intro identifier opens closes (states.relocated move) braces (again move behind ends)
      simpa [ContractFunction.relocate] using moved

/-- A rejection of a function carries over; in front of its name it lacks an identifier. -/
theorem RejectsFunction.relocated (rejects : RejectsFunction lexemes cause rest) :
    ∃ taken, (taken = [] → Lacks .identifier rest) ∧ lexemes = taken ++ rest ∧
      ∀ move behind, SameHead rest behind →
        RejectsFunction (taken.map (Lexeme.relocate move) ++ behind) cause behind := by
  cases rejects with
  | noName lacks =>
      exact ⟨[], fun _ => lacks, rfl, fun move behind same => .noName (same.lacks lacks)⟩
  | @noOpening name rest identifier lacks =>
      exact ⟨[name], by simp, rfl, fun move behind same =>
        .noOpening identifier (same.lacks lacks)⟩
  | @noClosing name opening rest identifier opens lacks =>
      exact ⟨[name, opening], by simp, rfl, fun move behind same =>
        .noClosing identifier opens (same.lacks lacks)⟩
  | @noBrace name opening closing lexemes rest identifier opens closes brace =>
      obtain ⟨taken, rfl, again⟩ := brace.relocated
      exact ⟨name :: opening :: closing :: taken, by simp, rfl, fun move behind same =>
        .noBrace identifier opens closes (again move behind same)⟩
  | @inBody name opening closing brace words inside rest visibility cause identifier opens closes
      states braces body =>
      obtain ⟨taken, rfl, again⟩ := body.relocated
      refine ⟨name :: opening :: closing :: (words ++ brace :: taken), by simp, by simp,
        fun move behind same => ?_⟩
      have moved : RejectsFunction (name.relocate move :: opening.relocate move ::
          closing.relocate move :: (words.map (Lexeme.relocate move) ++
            brace.relocate move :: (taken.map (Lexeme.relocate move) ++ behind))) cause behind :=
        .inBody identifier opens closes (states.relocated move) braces (again move behind same)
      simpa using moved

/-- What is taken from the name of a function on is taken behind the word that announces it. -/
theorem exists_of_fromName {keyword : Lexeme} {taken : List Lexeme}
    (whole : fromName keyword lexemes = taken ++ rest)
    (unnamed : taken = [] → Lacks .identifier rest) :
    ∃ front, lexemes = front ++ rest ∧ ∀ (move : Nat → Nat) (behind : List Lexeme),
      fromName (keyword.relocate move) (front.map (Lexeme.relocate move) ++ behind) =
        taken.map (Lexeme.relocate move) ++ behind := by
  by_cases isConstructor : isWord "constructor" keyword = true
  · rw [fromName, if_pos isConstructor] at whole
    cases taken with
    | nil =>
        -- The word is the name itself, so a name cannot be missing.
        have lacks := unnamed rfl
        rw [← List.nil_append rest, ← whole] at lacks
        exact absurd (kind_of_isWord isConstructor) (lacks_cons.mp lacks)
    | cons first front =>
        cases whole
        exact ⟨front, rfl, fun move behind => by simp [fromName, isConstructor]⟩
  · rw [fromName, if_neg isConstructor] at whole
    exact ⟨taken, whole, fun move behind => by simp [fromName, isConstructor]⟩

/-! ## State variables -/

theorem readHeader_relocated {type : String} {visibility : Option Visibility}
    {isConstant : Bool} {header : Header}
    (accepts : (readHeader type visibility isConstant lexemes).Accepts header rest) :
    ∃ taken, lexemes = taken ++ rest ∧ ∀ move behind,
      (readHeader type visibility isConstant (taken.map (Lexeme.relocate move) ++ behind)).Accepts
        (header.relocate move) behind := by
  induction lexemes generalizing visibility isConstant with
  | nil => simp [readHeader] at accepts
  | cons first lexemes ih =>
      cases names : namesVariable first with
      | true =>
          rw [readHeader_of_names names] at accepts
          obtain ⟨rfl, rfl⟩ := Outcome.accepts_take.mp accepts
          refine ⟨[first], rfl, fun move behind => ?_⟩
          have moved : namesVariable (first.relocate move) = true := names
          exact ⟨_, readHeader_of_names moved⟩
      | false =>
          rw [readHeader_of_not_names names, Outcome.accepts_relax] at accepts
          obtain ⟨taken, rfl, again⟩ := ih accepts
          refine ⟨first :: taken, rfl, fun move behind => ?_⟩
          have moved : namesVariable (first.relocate move) = false := names
          rw [List.map_cons, List.cons_append, readHeader_of_not_names moved,
            Outcome.accepts_relax]
          exact again move behind

theorem ReadsVariable.relocated {type : Ident} {declaration : StateVariable}
    (reads : ReadsVariable type lexemes declaration rest) :
    ∃ taken, lexemes = taken ++ rest ∧ ∀ move behind,
      ReadsVariable (type.relocate move) (taken.map (Lexeme.relocate move) ++ behind)
        (declaration.relocate move) behind := by
  cases reads with
  | @intro assign stop lexemes inside rest header value accepts same reads semicolon =>
      obtain ⟨taken, rfl, again⟩ := reads.relocated
      obtain ⟨words, rfl, headerAgain⟩ := readHeader_relocated accepts
      refine ⟨words ++ assign :: (taken ++ [stop]), by simp, fun move behind => ?_⟩
      have value := again move (stop.relocate move :: behind) .of_cons
      have header := headerAgain move
        (assign.relocate move :: (taken.map (Lexeme.relocate move) ++
          stop.relocate move :: behind))
      have moved : ReadsVariable (type.relocate move) _ _ behind :=
        .intro header same value semicolon
      simpa [StateVariable.relocate, Header.relocate] using moved

theorem RejectsVariable.relocated {type : Ident}
    (rejects : RejectsVariable type lexemes cause rest) :
    ∃ taken, lexemes = taken ++ rest ∧ ∀ move behind, SameHead rest behind →
      RejectsVariable (type.relocate move) (taken.map (Lexeme.relocate move) ++ behind) cause
        behind := by
  cases rejects with
  | unterminated noName =>
      refine ⟨lexemes, by simp, fun move behind same => ?_⟩
      cases behind with
      | cons => cases same
      | nil =>
          have moved : RejectsVariable (type.relocate move) (lexemes.map (Lexeme.relocate move))
              (.unterminatedDeclaration type.name) [] :=
            .unterminated (List.forall_mem_map.mpr noName)
          rwa [List.append_nil]
  | noAssign header lacks =>
      obtain ⟨words, rfl, again⟩ := readHeader_relocated header
      exact ⟨words, rfl, fun move behind same => .noAssign (again move behind) (same.lacks lacks)⟩
  | @inValue assign lexemes inside rest header cause accepts same value =>
      obtain ⟨taken, rfl, again⟩ := value.relocated
      obtain ⟨words, rfl, headerAgain⟩ := readHeader_relocated accepts
      refine ⟨words ++ assign :: taken, by simp, fun move behind alike => ?_⟩
      have header := headerAgain move
        (assign.relocate move :: (taken.map (Lexeme.relocate move) ++ behind))
      have moved : RejectsVariable (type.relocate move) _ cause behind :=
        .inValue header same (again move behind alike)
      simpa using moved
  | @noStop assign lexemes inside rest header value accepts same reads lacks =>
      obtain ⟨taken, rfl, again⟩ := reads.relocated
      obtain ⟨words, rfl, headerAgain⟩ := readHeader_relocated accepts
      refine ⟨words ++ assign :: taken, by simp, fun move behind alike => ?_⟩
      have header := headerAgain move
        (assign.relocate move :: (taken.map (Lexeme.relocate move) ++ behind))
      have moved : RejectsVariable (type.relocate move) _ (.expected .semicolon) behind :=
        .noStop header same (again move behind (.inl alike)) (alike.lacks lacks)
      simpa using moved

end ContractLens.Grammar
