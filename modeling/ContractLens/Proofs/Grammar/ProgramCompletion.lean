import ContractLens.Proofs.Grammar.Completion

/-!
# Completions of programs

Whatever was read of a member, a contract or a program in front of a refusal can be
read to the end: a completion of the part that is refused is followed by what still
has to come behind that part.
-/

namespace ContractLens.Grammar

open Phrase

variable {lexemes rest : List Lexeme} {cause : Cause}

/-! ## Bodies -/

/-- A statement goes on with a completion of what follows its first expression. -/
theorem endsStatement_of_completion {taken : List Lexeme} {completion : List Kind}
    (begins : taken = [] → BeginsWithName completion)
    (goesOn : endsStatement (taken ++ rest) = false) (tail : List Lexeme) :
    endsStatement (taken ++ (samples completion ++ tail)) = false := by
  cases taken with
  | nil =>
      obtain ⟨others, rfl⟩ := begins rfl
      rfl
  | cons lexeme taken => exact goesOn

theorem RejectsStatement.completed (rejects : RejectsStatement lexemes cause rest) :
    ∃ (taken : List Lexeme) (completion : List Kind),
      (taken = [] → BeginsWithName completion) ∧ lexemes = taken ++ rest ∧
      ∀ tail, ∃ statement,
        ReadsStatement (taken ++ (samples completion ++ tail)) statement tail := by
  induction rejects with
  | inExpression expression =>
      obtain ⟨taken, completion, begins, rfl, again⟩ := expression.completed
      refine ⟨taken, completion ++ [.semicolon], fun none => (begins none).append _, rfl,
        fun tail => ?_⟩
      obtain ⟨meaning, reads⟩ := again (.sample .semicolon :: tail) (endsBefore_cons rfl rfl)
      obtain ⟨expression, rfl⟩ := reads.single (by simp)
      exact ⟨_, by simpa using ReadsStatement.last reads rfl⟩
  | noStop expression _ _ =>
      obtain ⟨taken, rfl, again⟩ := expression.followed
      refine ⟨taken, [.semicolon], fun none => absurd none expression.taken_ne_nil, rfl,
        fun tail => ?_⟩
      have reads := again (.sample .semicolon :: tail) (.inr (endsBefore_cons rfl rfl))
      exact ⟨_, .last reads rfl⟩
  | @behindExpression lexemes middle rest first cause expression goesOn _ ih =>
      obtain ⟨taken, completion, begins, rfl, again⟩ := ih
      obtain ⟨front, rfl, firstAgain⟩ := expression.followed
      have notEmpty := expression.taken_ne_nil
      refine ⟨front ++ taken, completion, by simp [notEmpty], by simp, fun tail => ?_⟩
      obtain ⟨statement, reads⟩ := again tail
      have first := firstAgain _ (stopsAlike_of_completion (by simp) begins tail)
      have more := endsStatement_of_completion begins goesOn tail
      exact ⟨_, by simpa using ReadsStatement.more first more reads⟩

/-- A rejected body can be completed, and ends with the input then. -/
theorem RejectsBody.completed (rejects : RejectsBody lexemes cause rest) :
    ∃ (taken : List Lexeme) (completion : List Kind), lexemes = taken ++ rest ∧
      ∃ body, ReadsBody (taken ++ samples completion) body [] := by
  induction rejects with
  | @behindStop stop lexemes rest cause semicolon _ ih =>
      obtain ⟨taken, completion, rfl, body, reads⟩ := ih
      exact ⟨stop :: taken, completion, rfl, body, .empty semicolon reads⟩
  | inStatement _ _ statement =>
      obtain ⟨taken, completion, _, whole, again⟩ := statement.completed
      obtain ⟨statement, reads⟩ := again []
      exact ⟨taken, completion, whole, _, by simpa using ReadsBody.statement reads .atEnd⟩
  | behindStatement statement _ ih =>
      obtain ⟨taken, completion, rfl, body, reads⟩ := ih
      obtain ⟨front, _, rfl, again⟩ := statement.relocated
      have first := again id (taken ++ samples completion)
      exact ⟨front ++ taken, completion, by simp, _, by simpa using ReadsBody.statement first reads⟩

/-! ## Members -/

/-- A function is complete with a brace behind its parentheses, which no body has to close. -/
theorem exists_readsFunction {name opening closing : Lexeme} {words : List Lexeme}
    {visibility : Visibility} (identifier : name.kind = .identifier)
    (opens : opening.kind = .leftParen) (closes : closing.kind = .rightParen)
    (states : StatesVisibility words visibility) :
    ∃ function, ReadsFunction (name :: opening :: closing :: (words ++ samples [.leftBrace]))
      function [] :=
  ⟨_, .intro identifier opens closes states rfl .atEnd⟩

theorem RejectsFunction.completed (rejects : RejectsFunction lexemes cause rest) :
    ∃ (taken : List Lexeme) (completion : List Kind),
      (taken = [] → Lacks .identifier rest) ∧ lexemes = taken ++ rest ∧
        ∃ function, ReadsFunction (taken ++ samples completion) function [] := by
  cases rejects with
  | noName lacks =>
      exact ⟨[], [.identifier, .leftParen, .rightParen, .leftBrace], fun _ => lacks, rfl,
        exists_readsFunction rfl rfl rfl .silent⟩
  | @noOpening name rest identifier _ =>
      exact ⟨[name], [.leftParen, .rightParen, .leftBrace], by simp, rfl,
        exists_readsFunction identifier rfl rfl .silent⟩
  | @noClosing name opening rest identifier opens _ =>
      exact ⟨[name, opening], [.rightParen, .leftBrace], by simp, rfl,
        exists_readsFunction identifier opens rfl .silent⟩
  | @noBrace name opening closing lexemes rest identifier opens closes brace =>
      cases brace with
      | @behindWord word _ _ isWord stated _ =>
          exact ⟨[name, opening, closing, word], [.leftBrace], by simp, rfl,
            exists_readsFunction identifier opens closes (.word isWord stated)⟩
      | noWord _ _ =>
          exact ⟨[name, opening, closing], [.leftBrace], by simp, rfl,
            exists_readsFunction identifier opens closes .silent⟩
  | @inBody name opening closing brace words inside rest visibility cause identifier opens closes
      states braces body =>
      obtain ⟨taken, completion, rfl, body, reads⟩ := body.completed
      exact ⟨name :: opening :: closing :: (words ++ brace :: taken), completion, by simp,
        by simp, _,
        by simpa using ReadsFunction.intro identifier opens closes states braces reads⟩

/-- A name behind lexemes that are none ends the header of a state variable. -/
theorem exists_accepts_readHeader {name : Lexeme} (type : String)
    (visibility : Option Visibility) (isConstant : Bool) (names : namesVariable name = true)
    (noName : ∀ lexeme ∈ lexemes, namesVariable lexeme = false) (tail : List Lexeme) :
    ∃ header, (readHeader type visibility isConstant (lexemes ++ name :: tail)).Accepts header
      tail := by
  induction lexemes generalizing visibility isConstant with
  | nil => exact ⟨_, _, readHeader_of_names names⟩
  | cons first lexemes ih =>
      rw [List.cons_append, readHeader_of_not_names (noName first (by simp))]
      obtain ⟨header, accepts⟩ := ih (visibilityBehind first visibility)
        (isConstant || isWord "constant" first)
        (fun lexeme member => noName lexeme (by simp [member]))
      exact ⟨header, Outcome.accepts_relax.mpr accepts⟩

theorem exists_reads_sample (tail : List Lexeme) :
    ∃ value, Reads .expression (samples [.identifier, .semicolon] ++ tail) [value]
      (.sample .semicolon :: tail) :=
  ⟨_, .primary (.bare (.name rfl) (by simp [Lexeme.sample, opensSuffix]))
    (by simp [Lexeme.sample, operator?])⟩

theorem RejectsVariable.completed {type : Ident}
    (rejects : RejectsVariable type lexemes cause rest) :
    ∃ (taken : List Lexeme) (completion : List Kind), lexemes = taken ++ rest ∧
      ∀ tail, ∃ declaration,
        ReadsVariable type (taken ++ (samples completion ++ tail)) declaration tail := by
  cases rejects with
  | unterminated noName =>
      refine ⟨lexemes, [.identifier, .assign, .identifier, .semicolon], by simp, fun tail => ?_⟩
      obtain ⟨header, accepts⟩ := exists_accepts_readHeader type.name none false
        (show namesVariable (.sample .identifier) = true by decide) noName
        (samples [.assign, .identifier, .semicolon] ++ tail)
      obtain ⟨value, reads⟩ := exists_reads_sample tail
      exact ⟨_, .intro accepts rfl reads rfl⟩
  | @noAssign lexemes rest header accepts _ =>
      obtain ⟨taken, rfl, again⟩ := readHeader_relocated accepts
      refine ⟨taken, [.assign, .identifier, .semicolon], rfl, fun tail => ?_⟩
      have first := again id (samples [.assign, .identifier, .semicolon] ++ tail)
      obtain ⟨value, reads⟩ := exists_reads_sample tail
      rw [Lexeme.map_relocate_id] at first
      exact ⟨_, .intro first rfl reads rfl⟩
  | @inValue assign lexemes inside rest header cause accepts same value =>
      obtain ⟨taken, completion, _, rfl, again⟩ := value.completed
      obtain ⟨words, rfl, headerAgain⟩ := readHeader_relocated accepts
      refine ⟨words ++ assign :: taken, completion ++ [.semicolon], by simp, fun tail => ?_⟩
      obtain ⟨meaning, reads⟩ := again (.sample .semicolon :: tail) (endsBefore_cons rfl rfl)
      obtain ⟨value, rfl⟩ := reads.single (by simp)
      have first := headerAgain id
        (assign :: (taken ++ (samples completion ++ .sample .semicolon :: tail)))
      exact ⟨_, by simpa using ReadsVariable.intro first same reads rfl⟩
  | @noStop assign lexemes inside rest header value accepts same reads _ =>
      obtain ⟨taken, rfl, again⟩ := reads.followed
      obtain ⟨words, rfl, headerAgain⟩ := readHeader_relocated accepts
      refine ⟨words ++ assign :: taken, [.semicolon], by simp, fun tail => ?_⟩
      have reads := again (.sample .semicolon :: tail) (.inr (endsBefore_cons rfl rfl))
      have first := headerAgain id (assign :: (taken ++ .sample .semicolon :: tail))
      exact ⟨_, by simpa using ReadsVariable.intro first same reads rfl⟩

/-! ## Contracts -/

/-- Rejected bases can be completed, in front of everything but a comma. -/
theorem RejectsBases.completed (rejects : RejectsBases lexemes rest) :
    ∃ (taken : List Lexeme) (completion : List Kind), lexemes = taken ++ rest ∧
      ∀ tail, Lacks .comma tail → ∃ bases,
        ReadsBases (taken ++ (samples completion ++ tail)) bases tail := by
  induction rejects with
  | noName _ => exact ⟨[], [.identifier], rfl, fun tail lacks => ⟨_, .last rfl lacks⟩⟩
  | @behindComma name comma lexemes rest identifier isComma _ ih =>
      obtain ⟨taken, completion, rfl, again⟩ := ih
      refine ⟨name :: comma :: taken, completion, rfl, fun tail lacks => ?_⟩
      obtain ⟨bases, reads⟩ := again tail lacks
      exact ⟨_, .more identifier isComma reads⟩

theorem RejectsMembers.completed (rejects : RejectsMembers lexemes cause rest) :
    ∃ (taken : List Lexeme) (completion : List Kind), lexemes = taken ++ rest ∧
      ∃ members, ReadsMembers (taken ++ samples completion) members [] := by
  induction rejects with
  | @inFunction keyword lexemes rest cause announces function =>
      obtain ⟨whole, completion, unnamed, same, function, reads⟩ := function.completed
      obtain ⟨front, rfl, fromNameAgain⟩ := exists_of_fromName same unnamed
      have same := fromNameAgain id (samples completion)
      rw [Lexeme.map_relocate_id, Lexeme.map_relocate_id] at same
      rw [← same] at reads
      exact ⟨keyword :: front, completion, rfl, _, .function announces reads .atEnd⟩
  | @behindFunction keyword lexemes middle rest function cause announces reads rejects ih =>
      obtain ⟨taken, completion, rfl, members, more⟩ := ih
      obtain ⟨whole, notEmpty, same, functionAgain⟩ := reads.relocated
      obtain ⟨front, rfl, fromNameAgain⟩ := exists_of_fromName same fun none => absurd none notEmpty
      have first := functionAgain id (taken ++ samples completion)
        fun none => absurd none rejects.ne_nil
      rw [← fromNameAgain] at first
      exact ⟨keyword :: (front ++ taken), completion, by simp, _,
        by simpa using ReadsMembers.function announces first more⟩
  | @inVariable type lexemes rest cause identifier noFunction declaration =>
      obtain ⟨taken, completion, rfl, again⟩ := declaration.completed
      obtain ⟨declaration, reads⟩ := again []
      exact ⟨type :: taken, completion, rfl, _,
        by simpa using ReadsMembers.stateVariable identifier noFunction reads .atEnd⟩
  | @behindVariable type lexemes middle rest declaration cause identifier noFunction reads _ ih =>
      obtain ⟨taken, completion, rfl, members, more⟩ := ih
      obtain ⟨front, rfl, again⟩ := reads.relocated
      have first := again id (taken ++ samples completion)
      exact ⟨type :: (front ++ taken), completion, by simp, _,
        by simpa using ReadsMembers.stateVariable identifier noFunction first more⟩
  | @behindStray lexeme lexemes rest cause noBrace noIdentifier _ ih =>
      obtain ⟨taken, completion, rfl, members, more⟩ := ih
      exact ⟨lexeme :: taken, completion, rfl, _, .stray noBrace noIdentifier more⟩

theorem RejectsContract.completed (rejects : RejectsContract lexemes cause rest) :
    ∃ (taken : List Lexeme) (completion : List Kind), lexemes = taken ++ rest ∧
      ∃ contract, ReadsContract (taken ++ samples completion) contract [] := by
  cases rejects with
  | noName _ =>
      exact ⟨[], [.identifier, .leftBrace], rfl, _, .intro rfl (.none (by decide)) rfl .atEnd⟩
  | @inBases name keyword lexemes rest identifier isKeyword bases =>
      obtain ⟨taken, completion, rfl, again⟩ := bases.completed
      obtain ⟨bases, reads⟩ := again (samples [.leftBrace]) (by simp [Lexeme.sample])
      exact ⟨name :: keyword :: taken, completion ++ [.leftBrace], rfl, _,
        by simpa using ReadsContract.intro identifier (.some isKeyword reads) rfl .atEnd⟩
  | @noBrace name lexemes rest bases identifier inherits _ =>
      obtain ⟨taken, rfl, again⟩ := inherits.relocated
      have reads := again id (samples [.leftBrace]) (.inr (by simp [Lexeme.sample]))
      exact ⟨name :: taken, [.leftBrace], rfl, _,
        by simpa using ReadsContract.intro identifier reads rfl .atEnd⟩
  | @inMembers name brace lexemes inside rest bases cause identifier inherits opens members =>
      obtain ⟨taken, completion, rfl, members, reads⟩ := members.completed
      obtain ⟨front, rfl, again⟩ := inherits.relocated
      have first := again id (brace :: (taken ++ samples completion)) (.inl rfl)
      exact ⟨name :: (front ++ brace :: taken), completion, by simp, _,
        by simpa using ReadsContract.intro identifier first opens reads⟩

/-! ## Programs -/

theorem RejectsPragma.completed (rejects : RejectsPragma lexemes cause rest) :
    ∃ (taken : List Lexeme) (completion : List Kind), lexemes = taken ++ rest ∧
      ∃ pragma, ReadsPragma (taken ++ samples completion) pragma [] := by
  cases rejects with
  | noName _ =>
      exact ⟨[], [.identifier, .semicolon], rfl, _,
        @ReadsPragma.intro (.sample .identifier) (.sample .semicolon) [] [] rfl (by simp) rfl⟩
  | @unterminated name values identifier noSemicolon =>
      exact ⟨name :: values, [.semicolon], by simp, _, .intro identifier noSemicolon rfl⟩

/-- A rejected program can be completed. -/
theorem RejectsItems.completed (rejects : RejectsItems lexemes cause rest) :
    ∃ (taken : List Lexeme) (completion : List Kind), lexemes = taken ++ rest ∧
      ∃ items, ReadsItems (taken ++ samples completion) items := by
  induction rejects with
  | @inPragma keyword lexemes rest cause isPragma pragma =>
      obtain ⟨taken, completion, rfl, pragma, reads⟩ := pragma.completed
      exact ⟨keyword :: taken, completion, rfl, _, .pragma isPragma reads .atEnd⟩
  | @behindPragma keyword lexemes middle rest pragma cause isPragma reads _ ih =>
      obtain ⟨taken, completion, rfl, items, more⟩ := ih
      obtain ⟨front, rfl, again⟩ := reads.relocated
      have first := again id (taken ++ samples completion)
      exact ⟨keyword :: (front ++ taken), completion, by simp, _,
        by simpa using ReadsItems.pragma isPragma first more⟩
  | @noPath keyword isImport =>
      exact ⟨[keyword], [.identifier], rfl, _, .importing isImport .atEnd⟩
  | @behindImport keyword path lexemes rest cause isImport _ ih =>
      obtain ⟨taken, completion, rfl, items, more⟩ := ih
      exact ⟨keyword :: path :: taken, completion, rfl, _, .importing isImport more⟩
  | @inContract keyword lexemes rest cause isContract contract =>
      obtain ⟨taken, completion, rfl, contract, reads⟩ := contract.completed
      exact ⟨keyword :: taken, completion, rfl, _, .contract isContract reads .atEnd⟩
  | @behindContract keyword lexemes middle rest contract cause isContract reads rejects ih =>
      obtain ⟨taken, completion, rfl, items, more⟩ := ih
      obtain ⟨front, rfl, again⟩ := reads.relocated
      have first := again id (taken ++ samples completion)
        fun none => absurd none rejects.ne_nil
      exact ⟨keyword :: (front ++ taken), completion, by simp, _,
        by simpa using ReadsItems.contract isContract first more⟩
  | @behindStray lexeme lexemes rest cause noPragma noImport noContract _ ih =>
      obtain ⟨taken, completion, rfl, items, more⟩ := ih
      exact ⟨lexeme :: taken, completion, rfl, _, .stray noPragma noImport noContract more⟩

end ContractLens.Grammar
