import ContractLens.Proofs.Grammar.MemberLocality
import ContractLens.Proofs.Grammar.ProgramRejection

/-!
# Locality of reading programs

Derivations and rejections of contracts and of whole programs carry over to other
offsets; what is refused is refused for the same cause at the same lexeme, whatever
follows that lexeme.
-/

namespace ContractLens.Grammar

variable {lexemes rest : List Lexeme} {cause : Cause}

/-! ## Contracts -/

/-- Bases carry over to other offsets, and to lexemes behind them that do not go on. -/
theorem ReadsBases.relocated {bases : List Ident} (reads : ReadsBases lexemes bases rest) :
    ∃ taken, lexemes = taken ++ rest ∧ ∀ move behind, (SameHead rest behind ∨ Lacks .comma behind) →
      ReadsBases (taken.map (Lexeme.relocate move) ++ behind) (bases.map (Ident.relocate move))
        behind := by
  induction reads with
  | @last name rest identifier ends =>
      refine ⟨[name], rfl, fun move behind stops => .last identifier ?_⟩
      rcases stops with same | lacks
      · exact same.lacks ends
      · exact lacks
  | @more name comma lexemes rest others identifier isComma _ ih =>
      obtain ⟨taken, rfl, again⟩ := ih
      exact ⟨name :: comma :: taken, rfl, fun move behind stops =>
        .more identifier isComma (again move behind stops)⟩

theorem RejectsBases.relocated (rejects : RejectsBases lexemes rest) :
    ∃ taken, lexemes = taken ++ rest ∧ ∀ move behind, SameHead rest behind →
      RejectsBases (taken.map (Lexeme.relocate move) ++ behind) behind := by
  induction rejects with
  | noName lacks => exact ⟨[], rfl, fun move behind same => .noName (same.lacks lacks)⟩
  | @behindComma name comma lexemes rest identifier isComma _ ih =>
      obtain ⟨taken, rfl, again⟩ := ih
      exact ⟨name :: comma :: taken, rfl, fun move behind same =>
        .behindComma identifier isComma (again move behind same)⟩

/-- What stands behind the name of a contract carries over, in front of a brace in any case. -/
theorem ReadsInheritance.relocated {bases : List Ident}
    (reads : ReadsInheritance lexemes bases rest) :
    ∃ taken, lexemes = taken ++ rest ∧ ∀ move behind,
      (SameHead rest behind ∨ ∀ next ∈ behind.head?, next.kind = .leftBrace) →
      ReadsInheritance (taken.map (Lexeme.relocate move) ++ behind)
        (bases.map (Ident.relocate move)) behind := by
  cases reads with
  | none absent =>
      refine ⟨[], rfl, fun move behind stops => .none ?_⟩
      rcases stops with same | brace
      · exact same.forall_head (fun symbol => isWord "is" ⟨0, symbol.kind, symbol.literal⟩ = false)
          absent
      · intro next isNext
        simp [isWord, brace next isNext]
  | @some keyword lexemes _ _ isKeyword reads =>
      obtain ⟨taken, rfl, again⟩ := reads.relocated
      refine ⟨keyword :: taken, rfl, fun move behind stops => .some isKeyword ?_⟩
      refine again move behind (stops.imp_right fun brace next isNext => ?_)
      simp [brace next isNext]

/-- Members carry over; those of a contract that ends with the input go on to end there. -/
theorem ReadsMembers.relocated {members : List Member}
    (reads : ReadsMembers lexemes members rest) :
    ∃ taken, lexemes = taken ++ rest ∧ ∀ move behind, (rest = [] → behind = []) →
      ReadsMembers (taken.map (Lexeme.relocate move) ++ behind)
        (members.map (Member.relocate move)) behind := by
  induction reads with
  | atEnd =>
      refine ⟨[], rfl, fun move behind ends => ?_⟩
      rw [ends rfl]
      exact .atEnd
  | @closed closing rest brace => exact ⟨[closing], rfl, fun move behind _ => .closed brace⟩
  | @function keyword lexemes middle rest function members announces reads _ ih =>
      obtain ⟨taken, rfl, again⟩ := ih
      obtain ⟨whole, notEmpty, same, functionAgain⟩ := reads.relocated
      obtain ⟨front, rfl, fromNameAgain⟩ := exists_of_fromName same fun none => absurd none notEmpty
      refine ⟨keyword :: (front ++ taken), by simp, fun move behind ends => ?_⟩
      have first := functionAgain move (taken.map (Lexeme.relocate move) ++ behind)
        (by simpa using fun none atEnd => ⟨none, ends atEnd⟩)
      rw [← fromNameAgain] at first
      have announcesMoved : (isWord "constructor" (keyword.relocate move) ||
        isWord "function" (keyword.relocate move)) = true := announces
      simpa [Member.relocate] using
        ReadsMembers.function announcesMoved first (again move behind ends)
  | @stateVariable type lexemes middle rest declaration members identifier noFunction reads _ ih =>
      obtain ⟨taken, rfl, again⟩ := ih
      obtain ⟨front, rfl, declarationAgain⟩ := reads.relocated
      refine ⟨type :: (front ++ taken), by simp, fun move behind ends => ?_⟩
      have first := declarationAgain move (taken.map (Lexeme.relocate move) ++ behind)
      have typeMoved : (type.relocate move).kind = .identifier := identifier
      simpa [Member.relocate] using
        ReadsMembers.stateVariable typeMoved noFunction first (again move behind ends)
  | @stray lexeme lexemes rest members noBrace noIdentifier _ ih =>
      obtain ⟨taken, rfl, again⟩ := ih
      exact ⟨lexeme :: taken, rfl, fun move behind ends =>
        .stray noBrace noIdentifier (again move behind ends)⟩

theorem RejectsMembers.relocated (rejects : RejectsMembers lexemes cause rest) :
    ∃ taken, lexemes = taken ++ rest ∧ ∀ move behind, SameHead rest behind →
      RejectsMembers (taken.map (Lexeme.relocate move) ++ behind) cause behind := by
  induction rejects with
  | @inFunction keyword lexemes rest cause announces function =>
      obtain ⟨whole, unnamed, same, again⟩ := function.relocated
      obtain ⟨front, rfl, fromNameAgain⟩ := exists_of_fromName same unnamed
      refine ⟨keyword :: front, rfl, fun move behind alike => ?_⟩
      have first := again move behind alike
      rw [← fromNameAgain] at first
      exact .inFunction announces first
  | @behindFunction keyword lexemes middle rest function cause announces reads rejects ih =>
      obtain ⟨taken, rfl, again⟩ := ih
      obtain ⟨whole, notEmpty, same, functionAgain⟩ := reads.relocated
      obtain ⟨front, rfl, fromNameAgain⟩ := exists_of_fromName same fun none => absurd none notEmpty
      refine ⟨keyword :: (front ++ taken), by simp, fun move behind alike => ?_⟩
      have more := again move behind alike
      have first := functionAgain move (taken.map (Lexeme.relocate move) ++ behind)
        fun none => absurd none rejects.ne_nil
      rw [← fromNameAgain] at first
      have announcesMoved : (isWord "constructor" (keyword.relocate move) ||
        isWord "function" (keyword.relocate move)) = true := announces
      simpa using RejectsMembers.behindFunction announcesMoved first more
  | @inVariable type lexemes rest cause identifier noFunction declaration =>
      obtain ⟨taken, rfl, again⟩ := declaration.relocated
      exact ⟨type :: taken, rfl, fun move behind same =>
        .inVariable identifier noFunction (again move behind same)⟩
  | @behindVariable type lexemes middle rest declaration cause identifier noFunction reads _ ih =>
      obtain ⟨taken, rfl, again⟩ := ih
      obtain ⟨front, rfl, declarationAgain⟩ := reads.relocated
      refine ⟨type :: (front ++ taken), by simp, fun move behind same => ?_⟩
      have first := declarationAgain move (taken.map (Lexeme.relocate move) ++ behind)
      have typeMoved : (type.relocate move).kind = .identifier := identifier
      simpa using RejectsMembers.behindVariable typeMoved noFunction first (again move behind same)
  | @behindStray lexeme lexemes rest cause noBrace noIdentifier _ ih =>
      obtain ⟨taken, rfl, again⟩ := ih
      exact ⟨lexeme :: taken, rfl, fun move behind same =>
        .behindStray noBrace noIdentifier (again move behind same)⟩

theorem ReadsContract.relocated {contract : Contract}
    (reads : ReadsContract lexemes contract rest) :
    ∃ taken, lexemes = taken ++ rest ∧ ∀ move behind, (rest = [] → behind = []) →
      ReadsContract (taken.map (Lexeme.relocate move) ++ behind) (contract.relocate move)
        behind := by
  cases reads with
  | @intro name brace lexemes inside rest bases members identifier inherits opens reads =>
      obtain ⟨taken, rfl, again⟩ := reads.relocated
      obtain ⟨front, rfl, inheritsAgain⟩ := inherits.relocated
      refine ⟨name :: (front ++ brace :: taken), by simp, fun move behind ends => ?_⟩
      have first := inheritsAgain move
        (brace.relocate move :: (taken.map (Lexeme.relocate move) ++ behind)) (.inl rfl)
      have nameMoved : (name.relocate move).kind = .identifier := identifier
      have moved := ReadsContract.intro nameMoved first opens (again move behind ends)
      rw [nameOf_relocate, contractOf_relocate] at moved
      simpa using moved

theorem RejectsContract.relocated (rejects : RejectsContract lexemes cause rest) :
    ∃ taken, lexemes = taken ++ rest ∧ ∀ move behind, SameHead rest behind →
      RejectsContract (taken.map (Lexeme.relocate move) ++ behind) cause behind := by
  cases rejects with
  | noName lacks => exact ⟨[], rfl, fun move behind same => .noName (same.lacks lacks)⟩
  | @inBases name keyword lexemes rest identifier isKeyword bases =>
      obtain ⟨taken, rfl, again⟩ := bases.relocated
      exact ⟨name :: keyword :: taken, rfl, fun move behind same =>
        .inBases identifier isKeyword (again move behind same)⟩
  | @noBrace name lexemes rest bases identifier inherits lacks =>
      obtain ⟨taken, rfl, again⟩ := inherits.relocated
      exact ⟨name :: taken, rfl, fun move behind same =>
        .noBrace identifier (again move behind (.inl same)) (same.lacks lacks)⟩
  | @inMembers name brace lexemes inside rest bases cause identifier inherits opens members =>
      obtain ⟨taken, rfl, again⟩ := members.relocated
      obtain ⟨front, rfl, inheritsAgain⟩ := inherits.relocated
      refine ⟨name :: (front ++ brace :: taken), by simp, fun move behind same => ?_⟩
      have first := inheritsAgain move
        (brace.relocate move :: (taken.map (Lexeme.relocate move) ++ behind)) (.inl rfl)
      have nameMoved : (name.relocate move).kind = .identifier := identifier
      simpa using RejectsContract.inMembers nameMoved first opens (again move behind same)

/-! ## Programs -/

theorem ReadsPragma.relocated {pragma : Pragma} (reads : ReadsPragma lexemes pragma rest) :
    ∃ taken, lexemes = taken ++ rest ∧ ∀ move behind,
      ReadsPragma (taken.map (Lexeme.relocate move) ++ behind) (pragma.relocate move) behind := by
  cases reads with
  | @intro name stop values rest identifier noSemicolon semicolon =>
      refine ⟨name :: (values ++ [stop]), by simp, fun move behind => ?_⟩
      have nameMoved : (name.relocate move).kind = .identifier := identifier
      have stopMoved : (stop.relocate move).kind = .semicolon := semicolon
      have valuesMoved : ∀ value ∈ values.map (Lexeme.relocate move), value.kind ≠ .semicolon :=
        List.forall_mem_map.mpr noSemicolon
      have moved : ReadsPragma _ _ behind := .intro nameMoved valuesMoved stopMoved
      simpa [Pragma.relocate, Function.comp_def] using moved

theorem RejectsPragma.relocated (rejects : RejectsPragma lexemes cause rest) :
    ∃ taken, lexemes = taken ++ rest ∧ ∀ move behind, SameHead rest behind →
      RejectsPragma (taken.map (Lexeme.relocate move) ++ behind) cause behind := by
  cases rejects with
  | noName lacks => exact ⟨[], rfl, fun move behind same => .noName (same.lacks lacks)⟩
  | @unterminated name values identifier noSemicolon =>
      refine ⟨name :: values, by simp, fun move behind same => ?_⟩
      cases behind with
      | cons => cases same
      | nil =>
          rw [List.append_nil]
          exact .unterminated identifier (List.forall_mem_map.mpr noSemicolon)

theorem ReadsItems.relocated {items : List Item} (reads : ReadsItems lexemes items)
    (move : Nat → Nat) :
    ReadsItems (lexemes.map (Lexeme.relocate move)) (items.map (Item.relocate move)) := by
  induction reads with
  | atEnd => exact .atEnd
  | @pragma keyword _ _ _ _ isPragma pragma _ ih =>
      obtain ⟨taken, rfl, again⟩ := pragma.relocated
      have isPragmaMoved : isWord "pragma" (Lexeme.relocate move keyword) = true := isPragma
      simpa [Item.relocate] using ReadsItems.pragma isPragmaMoved (again move _) ih
  | importing isImport _ ih => exact .importing isImport ih
  | @contract keyword _ rest _ _ isContract contract _ ih =>
      obtain ⟨taken, rfl, again⟩ := contract.relocated
      have isContractMoved : isWord "contract" (Lexeme.relocate move keyword) = true := isContract
      have first := again move (rest.map (Lexeme.relocate move)) (by simp)
      simpa [Item.relocate] using ReadsItems.contract isContractMoved first ih
  | stray noPragma noImport noContract _ ih => exact .stray noPragma noImport noContract ih

theorem RejectsItems.relocated (rejects : RejectsItems lexemes cause rest) :
    ∃ taken, lexemes = taken ++ rest ∧ ∀ move behind, SameHead rest behind →
      RejectsItems (taken.map (Lexeme.relocate move) ++ behind) cause behind := by
  induction rejects with
  | @inPragma keyword lexemes rest cause isPragma pragma =>
      obtain ⟨taken, rfl, again⟩ := pragma.relocated
      exact ⟨keyword :: taken, rfl, fun move behind same =>
        .inPragma isPragma (again move behind same)⟩
  | @behindPragma keyword lexemes middle rest pragma cause isPragma reads _ ih =>
      obtain ⟨taken, rfl, again⟩ := ih
      obtain ⟨front, rfl, pragmaAgain⟩ := reads.relocated
      refine ⟨keyword :: (front ++ taken), by simp, fun move behind same => ?_⟩
      have isPragmaMoved : isWord "pragma" (keyword.relocate move) = true := isPragma
      simpa using RejectsItems.behindPragma isPragmaMoved (pragmaAgain move _)
        (again move behind same)
  | @noPath keyword isImport =>
      refine ⟨[keyword], rfl, fun move behind same => ?_⟩
      cases behind with
      | cons => cases same
      | nil => exact .noPath isImport
  | @behindImport keyword path lexemes rest cause isImport _ ih =>
      obtain ⟨taken, rfl, again⟩ := ih
      exact ⟨keyword :: path :: taken, rfl, fun move behind same =>
        .behindImport isImport (again move behind same)⟩
  | @inContract keyword lexemes rest cause isContract contract =>
      obtain ⟨taken, rfl, again⟩ := contract.relocated
      exact ⟨keyword :: taken, rfl, fun move behind same =>
        .inContract isContract (again move behind same)⟩
  | @behindContract keyword lexemes middle rest contract cause isContract reads rejects ih =>
      obtain ⟨taken, rfl, again⟩ := ih
      obtain ⟨front, rfl, contractAgain⟩ := reads.relocated
      refine ⟨keyword :: (front ++ taken), by simp, fun move behind same => ?_⟩
      have first := contractAgain move (taken.map (Lexeme.relocate move) ++ behind)
        fun none => absurd none rejects.ne_nil
      have isContractMoved : isWord "contract" (keyword.relocate move) = true := isContract
      simpa using RejectsItems.behindContract isContractMoved first (again move behind same)
  | @behindStray lexeme lexemes rest cause noPragma noImport noContract _ ih =>
      obtain ⟨taken, rfl, again⟩ := ih
      exact ⟨lexeme :: taken, rfl, fun move behind same =>
        .behindStray noPragma noImport noContract (again move behind same)⟩

end ContractLens.Grammar
