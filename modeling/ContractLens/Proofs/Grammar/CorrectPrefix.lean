import ContractLens.Proofs.Grammar.Layout
import ContractLens.Proofs.Grammar.ProgramCompletion
import ContractLens.Proofs.Token.Spacing

/-!
# The place of an error

A text that is refused is refused at the first token that no accepted text has
there.  What stands in front of this token begins an accepted text, and every text
that goes on with the token is refused with the same error.
-/

namespace ContractLens

variable {text other : String}

/-! ## Texts with the same first tokens -/

/-- The first tokens of two texts agree in kind and literal. -/
def AgreeUpTo (count : Nat) (first second : String) : Prop :=
  ((tokensOf first).take count).map Token.symbol? = ((tokensOf second).take count).map Token.symbol?

theorem map_symbol?_take_tokensOf {taken rest : List Lexeme}
    (whole : lexemesOf text = taken ++ rest) :
    ((tokensOf text).take taken.length).map Token.symbol? =
      (taken.map Lexeme.symbol).map some := by
  have front : (taken.map Token.lexeme).length = taken.length := List.length_map _
  rw [tokensOf, whole, List.map_append, List.append_assoc, List.take_left' front, List.map_map,
    List.map_map]
  rfl

theorem AgreeUpTo.exists_split {taken rest : List Lexeme} (whole : lexemesOf text = taken ++ rest)
    (agree : AgreeUpTo taken.length text other) :
    ∃ takenOther restOther, lexemesOf other = takenOther ++ restOther ∧
      takenOther.map Lexeme.symbol = taken.map Lexeme.symbol := by
  rw [AgreeUpTo, map_symbol?_take_tokensOf whole] at agree
  by_cases within : taken.length ≤ (lexemesOf other).length
  · have split := List.take_append_drop taken.length (lexemesOf other)
    have front : ((lexemesOf other).take taken.length).length = taken.length := by simp [within]
    have symbols := map_symbol?_take_tokensOf split.symm
    rw [front] at symbols
    refine ⟨_, _, split.symm, ?_⟩
    exact (List.map_inj_right fun _ _ => Option.some.inj).mp (symbols.symm.trans agree.symm)
  · -- Otherwise the end of the input is among the tokens that agree with lexemes.
    have all : (tokensOf other).take taken.length = tokensOf other := by
      apply List.take_of_length_le
      simp only [tokensOf, List.length_append, List.length_map, List.length_singleton]
      omega
    have ends : none ∈ (tokensOf other).map Token.symbol? :=
      List.mem_map.mpr ⟨.endOfInput other.length, by simp [tokensOf], rfl⟩
    rw [all] at agree
    rw [← agree] at ends
    simp at ends

/-! ## The place of an error -/

/-- A sample of each kind can be read in a spaced text. -/
theorem legible_sample (kind : Kind) : (Lexeme.sample kind).symbol.Legible := by
  have read : Lexeme.next? 0 (kind.sample.toList ++ [' ']) =
      some (Lexeme.sample kind, [' ']) := by
    cases kind <;> decide +kernel
  exact Lexeme.legible_of_next? read (by simp)

theorem accepted_of_symbols {lexemes : List Lexeme} {items : List Grammar.Item}
    (reads : Grammar.ReadsItems lexemes items)
    (same : (lexemesOf text).map Lexeme.symbol = lexemes.map Lexeme.symbol) :
    ∃ program, (parse text).1 = .ok program := by
  cases result : (parse text).1 with
  | ok program => exact ⟨program, rfl⟩
  | error error =>
      obtain ⟨rest, rejects, _⟩ := parse_eq_error_iff.mp result
      obtain ⟨taken, whole, again⟩ := rejects.relocated
      obtain ⟨move, relocated⟩ := exists_relocation_lexemes same (nodup_pos_lexemesOf text)
      have sameHead : Grammar.SameHead rest (rest.map (Lexeme.relocate move)) := by
        cases rest <;> rfl
      have rejectsMoved := again move _ sameHead
      rw [← List.map_append, ← whole, relocated] at rejectsMoved
      have accepts := Grammar.accepts_readItems.mpr ⟨reads, rfl⟩
      exact absurd (Grammar.refuses_readItems.mpr rejectsMoved) accepts.not_refuses

/-- What stands in front of the token at which a text is refused begins an accepted text. -/
theorem exists_accepted_of_rejects {cause : Cause} {taken rest : List Lexeme}
    (whole : lexemesOf text = taken ++ rest) (goesOn : rest ≠ [])
    (rejects : Grammar.RejectsItems (lexemesOf text) cause rest) :
    ∃ other program, AgreeUpTo taken.length text other ∧ (parse other).1 = .ok program := by
  obtain ⟨front, completion, same, items, reads⟩ := rejects.completed
  obtain rfl : front = taken := List.append_cancel_right (same.symm.trans whole)
  have legible : ∀ symbol ∈ (front ++ Grammar.samples completion).map Lexeme.symbol,
      symbol.Legible := by
    intro symbol member
    obtain ⟨lexeme, inside, rfl⟩ := List.mem_map.mp member
    rcases List.mem_append.mp inside with read | added
    · exact legible_of_lexemesFrom whole goesOn lexeme read
    · obtain ⟨kind, _, rfl⟩ := List.mem_map.mp added
      exact legible_sample kind
  let spelled := spaced ((front ++ Grammar.samples completion).map Lexeme.symbol)
  have symbols : (lexemesOf (String.ofList spelled)).map Lexeme.symbol =
      (front ++ Grammar.samples completion).map Lexeme.symbol := by
    rw [lexemesOf, String.toList_ofList]
    exact symbols_spaced legible 0
  obtain ⟨program, parsed⟩ := accepted_of_symbols reads symbols
  refine ⟨String.ofList spelled, program, ?_, parsed⟩
  rw [List.map_append] at symbols
  obtain ⟨frontOther, restOther, wholeOther, frontSymbols, _⟩ := List.map_eq_append_iff.mp symbols
  have length : frontOther.length = front.length := by
    simpa using congrArg List.length frontSymbols
  rw [AgreeUpTo, map_symbol?_take_tokensOf whole, ← length, map_symbol?_take_tokensOf wholeOther,
    frontSymbols]

/-- A text that goes on with the token at which another one is refused is refused like it. -/
theorem parse_eq_error_of_agree {error : ParseError} {taken rest : List Lexeme} {lexeme : Lexeme}
    (whole : lexemesOf text = taken ++ lexeme :: rest)
    (rejects : Grammar.RejectsItems (lexemesOf text) error.cause (lexeme :: rest))
    (agree : AgreeUpTo (taken.length + 1) text other) :
    ∃ found, (parse other).1 = .error ⟨error.cause, .lexeme found⟩ ∧
      found.symbol = lexeme.symbol ∧ (tokensOf other)[taken.length]? = some (.lexeme found) := by
  have through : lexemesOf text = (taken ++ [lexeme]) ++ rest := by simp [whole]
  obtain ⟨frontOther, restOther, wholeOther, symbols⟩ :=
    AgreeUpTo.exists_split through (by simpa using agree)
  rw [List.map_append] at symbols
  obtain ⟨takenOther, _, rfl, takenSymbols, last⟩ := List.map_eq_append_iff.mp symbols
  obtain ⟨found, rfl, foundSymbol⟩ := List.map_eq_singleton_iff.mp last
  have length : takenOther.length = taken.length := by
    simpa using congrArg List.length takenSymbols
  have splitOther : lexemesOf other = takenOther ++ found :: restOther := by simp [wholeOther]
  -- The taken lexemes stand apart, so one function moves them to those of the other text.
  obtain ⟨front, same, again⟩ := rejects.relocated
  obtain rfl : front = taken := List.append_cancel_right (same.symm.trans whole)
  have apart := nodup_pos_lexemesOf text
  rw [whole, List.map_append] at apart
  obtain ⟨move, relocated⟩ :=
    exists_relocation_lexemes takenSymbols.symm apart.of_append_left
  have sameHead : Grammar.SameHead (lexeme :: rest) (found :: restOther) :=
    congrArg some foundSymbol.symm
  have rejectsOther := again move _ sameHead
  rw [relocated, ← splitOther] at rejectsOther
  refine ⟨found, parse_eq_error_iff.mpr ⟨_, rejectsOther, rfl⟩, foundSymbol, ?_⟩
  rw [← length, getElem?_tokensOf_lookahead splitOther]
  rfl

/-- A text is refused at the first token with which no accepted text goes on. -/
structure RefusedAt (text : String) (error : ParseError) (index : Nat) : Prop where
  /-- This is the index of the token that the error names. -/
  token : ∀ place : Nat, (tokensOf text)[place]? = some error.found ↔ place = index
  /-- The tokens in front of it begin a text that is accepted. -/
  viable : ∃ other program, AgreeUpTo index text other ∧ (parse other).1 = .ok program
  /-- With the token they begin only texts that are refused, all with the same error. -/
  refused : ∀ other, AgreeUpTo (index + 1) text other →
    ∃ errorOther, (parse other).1 = .error errorOther ∧ errorOther.cause = error.cause ∧
      errorOther.detail = error.detail ∧ errorOther.found.symbol? = error.found.symbol? ∧
      (tokensOf other)[index]? = some errorOther.found

/-- An error at a lexeme is found as early as any reader could find it. -/
theorem exists_refusedAt {error : ParseError} {lexeme : Lexeme}
    (failed : (parse text).1 = .error error) (found : error.found = .lexeme lexeme) :
    ∃ index, RefusedAt text error index := by
  obtain ⟨rest, rejects, isFound⟩ := parse_eq_error_iff.mp failed
  cases rest with
  | nil => cases found.symm.trans isFound
  | cons first rest =>
      obtain ⟨taken, whole, _⟩ := rejects.relocated
      have place := getElem?_tokensOf_lookahead whole
      rw [← isFound] at place
      refine ⟨taken.length, ?_, exists_accepted_of_rejects whole (by simp) rejects, ?_⟩
      · intro other
        exact ⟨getElem?_tokensOf_inj place, fun same => same ▸ place⟩
      · intro other agree
        obtain ⟨foundOther, failedOther, symbol, placeOther⟩ :=
          parse_eq_error_of_agree whole rejects agree
        have same : (Token.lexeme foundOther).symbol? = error.found.symbol? := by
          rw [isFound]
          exact congrArg some symbol
        exact ⟨_, failedOther, rfl, ParseError.detail_eq_of_symbol? rfl same, same, placeOther⟩

/-- A missing value is noticed at the semicolon that stands in its place. -/
theorem exists_refusedAt_missing_value :
    (parse "contract A { b c = ; }").1 =
        .error ⟨.expectedExpression, .lexeme ⟨19, .semicolon, ";"⟩⟩ ∧
      ∃ index, RefusedAt "contract A { b c = ; }"
        ⟨.expectedExpression, .lexeme ⟨19, .semicolon, ";"⟩⟩ index := by
  have failed : (parse "contract A { b c = ; }").1 =
      .error ⟨.expectedExpression, .lexeme ⟨19, .semicolon, ";"⟩⟩ := by
    decide +kernel
  exact ⟨failed, exists_refusedAt failed rfl⟩

end ContractLens
