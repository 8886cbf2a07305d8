import ContractLens.Proofs.Grammar.Completeness

/-!
# Completeness of reading members

Statements, bodies, state variables and functions that are worded are derived in
front of whatever follows them: each ends with a mark of its own.
-/

namespace ContractLens

open Grammar

namespace Wording

/-! ## Bodies -/

theorem reads_expressions {first : Wording .expression} {others : List (Wording .expression)}
    (noParen : ∀ expression ∈ others, expression.symbols.head? ≠ some (.mark .leftParen))
    {lexemes rest : List Lexeme} {stop : Lexeme} (semicolon : stop.kind = .semicolon)
    (spelled : SpelledBy lexemes ((first :: others).flatMap symbols)) :
    ReadsStatement (lexemes ++ stop :: rest)
      (inSequence symbols (fun expression places => [expression.tree places])
        (first :: others) (placesOf (lexemes ++ stop :: rest))) rest := by
  induction others generalizing first lexemes with
  | nil =>
      have spelledFirst : SpelledBy lexemes first.symbols := by simpa using spelled
      have ends : Phrase.expression.EndsBefore (stop :: rest) :=
        Phrase.endsBefore_cons semicolon (by decide)
      exact .last (first.reads spelledFirst ends) semicolon
  | cons second others ih =>
      rw [SpelledBy, List.flatMap_cons] at spelled
      obtain ⟨front, back, rfl, spelledFirst, spelledOthers⟩ := List.map_eq_append_iff.mp spelled
      have behind := ih (fun expression member => noParen expression (by simp [member]))
        spelledOthers
      rw [List.flatMap_cons] at spelledOthers
      obtain ⟨middle, last, rfl, spelledSecond, _⟩ := List.map_eq_append_iff.mp spelledOthers
      obtain ⟨ends, goesOn⟩ := endsBefore_of_noParen (last ++ stop :: rest) spelledSecond
        (noParen second (by simp))
      rw [← List.append_assoc] at ends goesOn
      rw [List.append_assoc, inSequence_cons spelledFirst]
      exact .more (first.reads spelledFirst ends) goesOn behind

theorem reads_body {statements : List Statement} {lexemes : List Lexeme} {closing : Lexeme}
    (rest : List Lexeme) (brace : closing.kind = .rightBrace)
    (spelled : SpelledBy lexemes (statements.flatMap Statement.symbols)) :
    ReadsBody (lexemes ++ closing :: rest)
      (inSequence Statement.symbols Statement.tree statements
        (placesOf (lexemes ++ closing :: rest))) rest := by
  induction statements generalizing lexemes with
  | nil =>
      cases List.map_eq_nil_iff.mp spelled
      exact .closed brace
  | cons statement statements ih =>
      rw [SpelledBy, List.flatMap_cons] at spelled
      obtain ⟨front, back, rfl, spelledFirst, spelledOthers⟩ := List.map_eq_append_iff.mp spelled
      have behind := ih spelledOthers
      rw [List.append_assoc, inSequence_cons spelledFirst]
      obtain ⟨inside, _, rfl, spelledInside, last⟩ := List.map_eq_append_iff.mp spelledFirst
      obtain ⟨stop, rfl, stops⟩ := List.map_eq_singleton_iff.mp last
      have semicolon := kind_of_symbol_mark stops
      rw [List.append_assoc, List.singleton_append]
      obtain ⟨expressions, noParen⟩ := statement
      cases expressions with
      | nil =>
          cases List.map_eq_nil_iff.mp spelledInside
          exact .empty semicolon behind
      | cons first others =>
          exact .statement (reads_expressions noParen semicolon spelledInside) behind

/-! ## State variables -/

theorem accepts_readHeader (type : String) {words : List HeaderWord} {lexemes : List Lexeme}
    {name : Lexeme} (rest : List Lexeme) (identifier : name.kind = .identifier)
    (notConstant : name.literal ≠ "constant")
    (noVisibility : Visibility.ofWord? name.literal = none)
    (visibility : Option Visibility) (isConstant : Bool)
    (spelled : SpelledBy lexemes (words.map HeaderWord.symbol)) :
    (readHeader type visibility isConstant (lexemes ++ name :: rest)).Accepts
      ⟨(words.filterMap HeaderWord.visibility?).getLast?.or visibility,
        isConstant || words.contains .constant, nameOf name⟩ rest := by
  induction words generalizing lexemes visibility isConstant with
  | nil =>
      cases List.map_eq_nil_iff.mp spelled
      simp [readHeader, identifier, notConstant, noVisibility]
  | cons word words ih =>
      obtain ⟨lexeme, others, rfl, same, spelledOthers⟩ := List.map_eq_cons_iff.mp spelled
      rw [List.cons_append, readHeader, if_pos]
      cases word with
      | constant =>
          have literal : lexeme.literal = "constant" := congrArg Symbol.literal same
          have behind := ih visibility true spelledOthers
          rw [if_pos literal]
          simpa [HeaderWord.visibility?] using behind
      | visibility stated =>
          have literal : lexeme.literal = stated.word := congrArg Symbol.literal same
          have notConstant : lexeme.literal ≠ "constant" := by
            rw [literal]
            cases stated <;> decide
          have behind := ih (some stated) isConstant spelledOthers
          have latest :
              ((stated :: words.filterMap HeaderWord.visibility?).getLast?).or visibility =
                (words.filterMap HeaderWord.visibility?).getLast?.or (some stated) := by
            rw [List.getLast?_cons]
            cases (words.filterMap HeaderWord.visibility?).getLast? <;> rfl
          rw [if_neg notConstant, literal, Visibility.ofWord?_word, List.filterMap_cons]
          simpa [HeaderWord.visibility?, latest] using behind
      · cases word with
        | constant => exact kind_of_symbol_word same
        | visibility stated => exact kind_of_symbol_word same

theorem StateVariable.reads (declaration : StateVariable) {lexemes : List Lexeme}
    (rest : List Lexeme) (spelled : SpelledBy lexemes declaration.symbols) :
    ∃ type behind, lexemes = type :: behind ∧ type.symbol = .word declaration.type ∧
      ReadsVariable (nameOf type) (behind ++ rest)
        (declaration.tree (placesOf (lexemes ++ rest))) rest := by
  obtain ⟨type, behind, rfl, typed, spelledBehind⟩ := List.map_eq_cons_iff.mp spelled
  refine ⟨type, behind, rfl, typed, ?_⟩
  obtain ⟨words, _, rfl, spelledWords, spelledName⟩ := List.map_eq_append_iff.mp spelledBehind
  obtain ⟨name, _, rfl, named, spelledAssign⟩ := List.map_eq_cons_iff.mp spelledName
  obtain ⟨assign, _, rfl, assigns, spelledValue⟩ := List.map_eq_cons_iff.mp spelledAssign
  obtain ⟨inside, _, rfl, spelledInside, last⟩ := List.map_eq_append_iff.mp spelledValue
  obtain ⟨stop, rfl, stops⟩ := List.map_eq_singleton_iff.mp last
  have semicolon := kind_of_symbol_mark stops
  have wordsLength : words.length = declaration.words.length := by
    rw [length_of_spelledBy spelledWords, List.length_map]
  have literal : name.literal = declaration.name := congrArg Symbol.literal named
  have notConstant : name.literal ≠ "constant" := by
    rw [literal]
    exact declaration.noWord.1
  have noVisibility : Visibility.ofWord? name.literal = none := by
    rw [literal]
    exact declaration.noWord.2
  have header := accepts_readHeader (nameOf type).name (assign :: (inside ++ stop :: rest))
    (kind_of_symbol_word named) notConstant noVisibility none false spelledWords
  have ends : Phrase.expression.EndsBefore (stop :: rest) :=
    Phrase.endsBefore_cons semicolon (by decide)
  have reads := ReadsVariable.intro header (kind_of_symbol_mark assigns)
    (declaration.value.reads spelledInside ends) semicolon
  have frontLength : (type :: words).length = declaration.words.length + 1 := by
    rw [List.length_cons, wordsLength]
  have shape : type :: (words ++ name :: assign :: (inside ++ [stop])) ++ rest =
      (type :: words) ++ name :: (assign :: (inside ++ stop :: rest)) := by
    simp
  have shapeBehind : words ++ name :: assign :: (inside ++ [stop]) ++ rest =
      words ++ name :: assign :: (inside ++ stop :: rest) := by
    simp
  rw [nameOf_of_symbol_word named, nameOf_of_symbol_word typed, Option.or_none,
    Bool.false_or] at reads
  rw [tree, shape, shapeBehind, getD_placesOf frontLength, drop_placesOf frontLength,
    nameOf_of_symbol_word typed]
  exact reads

/-! ## Functions -/

theorem Function.statesVisibility {function : Function} {words : List Lexeme}
    (spelled : SpelledBy words function.words) :
    StatesVisibility words (function.visibility?.getD .pub) := by
  unfold Function.words at spelled
  cases stated : function.visibility? with
  | none =>
      rw [stated] at spelled
      cases List.map_eq_nil_iff.mp spelled
      exact .silent
  | some visibility =>
      rw [stated] at spelled
      obtain ⟨word, rfl, same⟩ := List.map_eq_singleton_iff.mp spelled
      have literal : word.literal = visibility.word := congrArg Symbol.literal same
      refine .word (kind_of_symbol_word same) ?_
      rw [literal, Visibility.ofWord?_word]
      rfl

/-- What is worded behind the name of a function is derived behind it. -/
theorem Function.reads_ending (function : Function) {name : Lexeme} {lexemes : List Lexeme}
    (rest : List Lexeme) (identifier : name.kind = .identifier)
    (spelled : SpelledBy lexemes function.ending) :
    ReadsFunction (name :: (lexemes ++ rest))
      ⟨nameOf name, function.visibility?.getD .pub,
        inSequence Statement.symbols Statement.tree function.body
          ((placesOf (lexemes ++ rest)).drop (function.words.length + 3))⟩ rest := by
  obtain ⟨opening, _, rfl, opens, spelledClosing⟩ := List.map_eq_cons_iff.mp spelled
  obtain ⟨closing, _, rfl, closes, spelledBehind⟩ := List.map_eq_cons_iff.mp spelledClosing
  obtain ⟨words, _, rfl, spelledWords, spelledBrace⟩ := List.map_eq_append_iff.mp spelledBehind
  obtain ⟨brace, _, rfl, braces, spelledBody⟩ := List.map_eq_cons_iff.mp spelledBrace
  obtain ⟨inside, _, rfl, spelledInside, spelledLast⟩ := List.map_eq_append_iff.mp spelledBody
  obtain ⟨last, rfl, lasts⟩ := List.map_eq_singleton_iff.mp spelledLast
  have body := reads_body rest (kind_of_symbol_mark lasts) spelledInside
  have reads := ReadsFunction.intro identifier (kind_of_symbol_mark opens)
    (kind_of_symbol_mark closes) (function.statesVisibility spelledWords)
    (kind_of_symbol_mark braces) body
  have frontLength : (opening :: closing :: words).length = function.words.length + 2 := by
    simp [length_of_spelledBy spelledWords]
  have shape : opening :: closing :: (words ++ brace :: (inside ++ [last])) ++ rest =
      (opening :: closing :: words) ++ brace :: (inside ++ last :: rest) := by
    simp
  rw [shape, drop_placesOf frontLength]
  exact reads

theorem Function.reads (function : Function) {lexemes : List Lexeme} (rest : List Lexeme)
    (spelled : SpelledBy lexemes function.symbols) :
    ∃ keyword behind, lexemes = keyword :: behind ∧
      (isWord "constructor" keyword || isWord "function" keyword) = true ∧
        ReadsFunction (fromName keyword (behind ++ rest))
          (function.tree (placesOf (lexemes ++ rest))) rest := by
  obtain ⟨front, back, rfl, spelledHeading, spelledEnding⟩ := List.map_eq_append_iff.mp spelled
  unfold heading at spelledHeading
  rw [List.append_assoc]
  cases called : function.name? with
  | some literal =>
      rw [called] at spelledHeading
      obtain ⟨keyword, _, rfl, announces, spelledName⟩ := List.map_eq_cons_iff.mp spelledHeading
      obtain ⟨name, rfl, named⟩ := List.map_eq_singleton_iff.mp spelledName
      have noConstructor : isWord "constructor" keyword = false := isWord_of_symbol announces
      have reads := function.reads_ending rest (kind_of_symbol_word named) spelledEnding
      refine ⟨keyword, name :: back, rfl, ?_, ?_⟩
      · rw [isWord_of_symbol announces, isWord_of_symbol announces]
        rfl
      · rw [nameOf_of_symbol_word named] at reads
        simp only [fromName, noConstructor, tree, heading, called]
        exact reads
  | none =>
      rw [called] at spelledHeading
      obtain ⟨keyword, rfl, announces⟩ := List.map_eq_singleton_iff.mp spelledHeading
      have isConstructor : isWord "constructor" keyword = true := isWord_of_symbol announces
      have reads := function.reads_ending rest (kind_of_symbol_word announces) spelledEnding
      refine ⟨keyword, back, rfl, ?_, ?_⟩
      · rw [isConstructor]
        rfl
      · rw [nameOf_of_symbol_word announces] at reads
        simp only [fromName, isConstructor, tree, heading, called]
        exact reads

end Wording

end ContractLens
