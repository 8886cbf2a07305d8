import ContractLens.Proofs.Declaration.Relocation
import ContractLens.Proofs.Declaration.Declared
import ContractLens.Proofs.Grammar.ProgramLocality
import ContractLens.Proofs.Token.Layout

/-!
# Independence of layout

Texts of one sequence of symbols are read alike.  Both are accepted and state one
program up to offsets, in which every name is declared at the same token; or both
are refused for the same cause at the same token.
-/

namespace ContractLens

variable {move : Nat → Nat} {first second text : String}

/-! ## Errors -/

def ParseError.relocate (move : Nat → Nat) (error : ParseError) : ParseError :=
  { error with found := error.found.relocate move }

theorem ParseError.detail_eq_of_symbol? {error other : ParseError}
    (cause : error.cause = other.cause) (found : error.found.symbol? = other.found.symbol?) :
    error.detail = other.detail := by
  simp only [detail, cause, Token.description_eq_of_symbol? found]

theorem getElem?_tokensOf_lookahead {taken rest : List Lexeme}
    (whole : lexemesOf text = taken ++ rest) :
    (tokensOf text)[taken.length]? = some (Grammar.lookahead text.length rest) := by
  rw [tokensOf, whole, List.map_append, List.append_assoc]
  have front : (taken.map Token.lexeme).length = taken.length := List.length_map _
  rw [List.getElem?_append_right (Nat.le_of_eq front), front, Nat.sub_self]
  cases rest <;> rfl

theorem exists_index_of_parse {error : ParseError} (failed : (parse text).1 = .error error) :
    ∃ index : Nat, (tokensOf text)[index]? = some error.found := by
  obtain ⟨rest, rejects, found⟩ := parse_eq_error_iff.mp failed
  obtain ⟨taken, whole, _⟩ := rejects.relocated
  exact ⟨taken.length, by rw [found, getElem?_tokensOf_lookahead whole]⟩

/-! ## Reading another layout -/

theorem Grammar.lookahead_relocate (length : Nat) (rest : List Lexeme) :
    Grammar.lookahead (move length) (rest.map (Lexeme.relocate move)) =
      (Grammar.lookahead length rest).relocate move := by
  cases rest <;> rfl

theorem parse_relocated_of_ok (moved : (tokensOf first).map (Token.relocate move) = tokensOf second)
    {program : Program} (parsed : (parse first).1 = .ok program) :
    (parse second).1 = .ok (program.relocate move) := by
  obtain ⟨items, reads, rfl⟩ := parse_eq_ok_iff.mp parsed
  obtain ⟨lexemes, _⟩ := lexemesOf_of_relocated moved
  rw [parse_eq_ok_iff, lexemes]
  exact ⟨_, reads.relocated move, Grammar.programOf_relocate items⟩

theorem parse_relocated_of_error
    (moved : (tokensOf first).map (Token.relocate move) = tokensOf second) {error : ParseError}
    (failed : (parse first).1 = .error error) :
    (parse second).1 = .error (error.relocate move) := by
  obtain ⟨rest, rejects, found⟩ := parse_eq_error_iff.mp failed
  obtain ⟨lexemes, length⟩ := lexemesOf_of_relocated moved
  obtain ⟨taken, whole, again⟩ := rejects.relocated
  have same : Grammar.SameHead rest (rest.map (Lexeme.relocate move)) := by
    cases rest <;> rfl
  rw [parse_eq_error_iff, lexemes, length, whole, List.map_append]
  refine ⟨rest.map (Lexeme.relocate move), again move _ same, ?_⟩
  rw [Grammar.lookahead_relocate, ParseError.relocate, found]

/-! ## Two layouts -/

/-- Two tokens stand at the same index in two texts. -/
def Corresponding (first second : String) (token other : Token) : Prop :=
  ∃ index : Nat, (tokensOf first)[index]? = some token ∧ (tokensOf second)[index]? = some other

theorem Corresponding.of_relocated
    (moved : (tokensOf first).map (Token.relocate move) = tokensOf second) {token other : Token}
    (corresponding : Corresponding first second token other) : token.relocate move = other := by
  obtain ⟨index, found, foundOther⟩ := corresponding
  rw [← moved, List.getElem?_map, found] at foundOther
  exact Option.some.inj foundOther

/-- The function moves the tokens of one text to those at the same index in another one. -/
def MovesTokens (move : Nat → Nat) (first second : String) : Prop :=
  ∀ {token other}, Corresponding first second token other → move token.pos = other.pos

/-- What is said of two texts that differ in their layout only. -/
structure SameButForLayout (first second : String) : Prop where
  /-- The offsets of one text can be replaced by those of the other. -/
  movable : ∃ move, MovesTokens move first second
  /-- Both are accepted or both are refused. -/
  accepted : (∃ program, (parse first).1 = .ok program) ↔ ∃ program, (parse second).1 = .ok program
  /-- The programs are the same if every offset is replaced by that of the same token. -/
  program : ∀ {program other : Program}, (parse first).1 = .ok program →
    (parse second).1 = .ok other → ∀ move, MovesTokens move first second →
      program.relocate move = other
  /-- The errors are the same, at the same token. -/
  error : ∀ {error other : ParseError}, (parse first).1 = .error error →
    (parse second).1 = .error other →
      error.cause = other.cause ∧ error.detail = other.detail ∧
        error.found.symbol? = other.found.symbol? ∧
        Corresponding first second error.found other.found
  /-- Asked at the same token, both give the same answer, which is a token if it is a place. -/
  declaration : ∀ {program other : Program}, (parse first).1 = .ok program →
    (parse second).1 = .ok other → ∀ {target moved}, Corresponding first second target moved →
      (∀ pos, program.declarationAt target.pos = .ok pos →
        ∃ token declared, Corresponding first second token declared ∧ token.pos = pos) ∧
      (∀ {token declared}, Corresponding first second token declared →
        (program.declarationAt target.pos = .ok token.pos ↔
          other.declarationAt moved.pos = .ok declared.pos)) ∧
      (∀ name, program.declarationAt target.pos = .error (.notInScope name) ↔
        other.declarationAt moved.pos = .error (.notInScope name)) ∧
      (program.declarationAt target.pos = .error .unknownPosition ↔
        other.declarationAt moved.pos = .error .unknownPosition)

/-- A function that moves each token to its counterpart moves the one text to the other. -/
theorem map_relocate_of_corresponding
    (same : (tokensOf first).map Token.symbol? = (tokensOf second).map Token.symbol?)
    (moves : MovesTokens move first second) :
    (tokensOf first).map (Token.relocate move) = tokensOf second := by
  refine map_relocate_eq same (List.ext_getElem? fun index => ?_)
  have alike := congrArg (·[index]?) same
  simp only [List.getElem?_map, Option.map_map] at alike ⊢
  cases found : (tokensOf first)[index]? with
  | none =>
      cases foundOther : (tokensOf second)[index]? with
      | none => rfl
      | some other => simp [found, foundOther] at alike
  | some token =>
      cases foundOther : (tokensOf second)[index]? with
      | none => simp [found, foundOther] at alike
      | some other => exact congrArg some (moves ⟨index, found, foundOther⟩)

theorem exists_corresponding
    (same : (tokensOf first).map Token.symbol? = (tokensOf second).map Token.symbol?)
    {token : Token} (member : token ∈ tokensOf first) :
    ∃ other, Corresponding first second token other := by
  obtain ⟨index, found⟩ := List.getElem?_of_mem member
  have length : (tokensOf first).length = (tokensOf second).length := by
    simpa using congrArg List.length same
  have within : index < (tokensOf second).length := by
    rw [← length]
    exact (List.getElem?_eq_some_iff.mp found).1
  exact ⟨_, index, found, List.getElem?_eq_getElem within⟩

theorem exists_token_of_declarationAt {program : Program} {target pos : Nat}
    (parsed : (parse text).1 = .ok program) (answer : program.declarationAt target = .ok pos) :
    ∃ token ∈ tokensOf text, token.pos = pos := by
  have answers := Program.answers_declarationAt parsed target
  rw [answer] at answers
  cases answers with
  | declared member here found =>
      obtain ⟨_, declares⟩ := Reference.of_declaration?_eq_some member found
      have inside := declares.mem_lexemesOf parsed
      exact ⟨.lexeme _, List.mem_append_left _ (List.mem_map_of_mem inside), rfl⟩

/-- Moving offsets apart keeps answers apart. -/
theorem declarationAt_relocated_eq_ok (injective : Function.Injective move) (program : Program)
    (target pos : Nat) :
    (program.relocate move).declarationAt (move target) = .ok (move pos) ↔
      program.declarationAt target = .ok pos := by
  rw [program.declarationAt_relocate injective]
  cases program.declarationAt target with
  | ok found => simp [Except.map, injective.eq_iff]
  | error reason => simp [Except.map]

theorem declarationAt_relocated_eq_error (injective : Function.Injective move)
    (program : Program) (target : Nat) (reason : ResolutionError) :
    (program.relocate move).declarationAt (move target) = .error reason ↔
      program.declarationAt target = .error reason := by
  rw [program.declarationAt_relocate injective]
  cases program.declarationAt target <;> simp [Except.map]

/-- Texts whose tokens agree in kind and literal are read alike. -/
theorem sameButForLayout_of_symbols
    (same : (tokensOf first).map Token.symbol? = (tokensOf second).map Token.symbol?) :
    SameButForLayout first second := by
  obtain ⟨move, injective, moved⟩ :=
    exists_relocation same (nodup_pos_tokensOf first) (nodup_pos_tokensOf second)
  have moves : MovesTokens move first second := by
    intro token other corresponding
    rw [← corresponding.of_relocated moved, Token.pos_relocate]
  constructor
  case movable => exact ⟨move, moves⟩
  case accepted =>
    constructor
    · rintro ⟨program, parsed⟩
      exact ⟨_, parse_relocated_of_ok moved parsed⟩
    · rintro ⟨other, parsed⟩
      cases result : (parse first).1 with
      | ok program => exact ⟨program, rfl⟩
      | error error => cases parsed.symm.trans (parse_relocated_of_error moved result)
  case program =>
    intro program other parsed parsedOther chosen movesToo
    have chosenMoves := map_relocate_of_corresponding same movesToo
    exact Except.ok.inj ((parse_relocated_of_ok chosenMoves parsed).symm.trans parsedOther)
  case error =>
    intro error other failed failedOther
    cases failedOther.symm.trans (parse_relocated_of_error moved failed)
    have symbol : error.found.symbol? = (error.relocate move).found.symbol? :=
      (Token.symbol?_relocate move error.found).symm
    obtain ⟨index, found⟩ := exists_index_of_parse failed
    refine ⟨rfl, error.detail_eq_of_symbol? rfl symbol, symbol, index, found, ?_⟩
    rw [← moved, List.getElem?_map, found]
    rfl
  case declaration =>
    intro program other parsed parsedOther target targetMoved corresponding
    cases parsedOther.symm.trans (parse_relocated_of_ok moved parsed)
    rw [← moves corresponding]
    refine ⟨fun place answer => ?_, fun declared => ?_, fun name => ?_, ?_⟩
    · obtain ⟨token, member, rfl⟩ := exists_token_of_declarationAt parsed answer
      obtain ⟨declared, alike⟩ := exists_corresponding same member
      exact ⟨token, declared, alike, rfl⟩
    · rw [← moves declared]
      exact (declarationAt_relocated_eq_ok injective program _ _).symm
    · exact (declarationAt_relocated_eq_error injective program _ _).symm
    · exact (declarationAt_relocated_eq_error injective program _ _).symm

/-- Comments and line breaks do not change what a contract says. -/
theorem sameButForLayout_of_comment :
    (tokensOf "contract A { b c = d; }").map Token.symbol? =
        (tokensOf "contract A\x7b// note\n b\tc=d;\x7d").map Token.symbol? ∧
      SameButForLayout "contract A { b c = d; }" "contract A\x7b// note\n b\tc=d;\x7d" := by
  have same : (tokensOf "contract A { b c = d; }").map Token.symbol? =
      (tokensOf "contract A\x7b// note\n b\tc=d;\x7d").map Token.symbol? := by
    decide +kernel
  exact ⟨same, sameButForLayout_of_symbols same⟩

end ContractLens
