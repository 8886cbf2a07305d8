import ContractLens.Proofs.Grammar.Wording

/-!
# Completeness of reading

What is worded can be derived.  A wording says nothing about the lexemes behind
it, while a derivation may go on only where it must; so every part of a wording
is derived in front of lexemes with which it cannot go on.
-/

namespace ContractLens

open Grammar

/-! ## Places of lexemes -/

abbrev placesOf (lexemes : List Lexeme) : List Nat :=
  lexemes.map Lexeme.pos

theorem getD_placesOf {front back : List Lexeme} {lexeme : Lexeme} {count : Nat}
    (length : front.length = count) :
    (placesOf (front ++ lexeme :: back)).getD count 0 = lexeme.pos := by
  subst length
  simp [placesOf]

theorem drop_placesOf {front back : List Lexeme} {lexeme : Lexeme} {count : Nat}
    (length : front.length = count) :
    (placesOf (front ++ lexeme :: back)).drop (count + 1) = placesOf back := by
  subst length
  simp [placesOf, List.drop_append]

/-- The lexemes are written with the symbols. -/
abbrev SpelledBy (lexemes : List Lexeme) (symbols : List Symbol) : Prop :=
  lexemes.map Lexeme.symbol = symbols

theorem length_of_spelledBy {lexemes : List Lexeme} {symbols : List Symbol}
    (spelled : SpelledBy lexemes symbols) : lexemes.length = symbols.length := by
  rw [← spelled, List.length_map]

theorem kind_of_symbol_mark {lexeme : Lexeme} {kind : Kind}
    (same : lexeme.symbol = .mark kind) : lexeme.kind = kind :=
  congrArg Symbol.kind same

theorem kind_of_symbol_word {lexeme : Lexeme} {literal : String}
    (same : lexeme.symbol = .word literal) : lexeme.kind = .identifier :=
  congrArg Symbol.kind same

theorem nameOf_of_symbol_word {lexeme : Lexeme} {literal : String}
    (same : lexeme.symbol = .word literal) : nameOf lexeme = ⟨literal, lexeme.pos⟩ :=
  congrArg (Ident.mk · lexeme.pos) (congrArg Symbol.literal same)

theorem isWord_of_symbol {lexeme : Lexeme} {word literal : String}
    (same : lexeme.symbol = .word literal) : isWord word lexeme = (literal == word) := by
  have text : lexeme.literal = literal := congrArg Symbol.literal same
  simp [isWord, kind_of_symbol_word same, text]

/-! ## Expressions -/

/-- A phrase does not go on with a lexeme of this kind. -/
def Grammar.Phrase.endsAt (phrase : Phrase) (kind : Kind) : Bool :=
  match phrase with
  | operand => true
  | primary => !opensSuffix kind
  | arguments => kind = .rightParen
  | expression => !opensSuffix kind && operator? kind = none

/-- A phrase ends in front of lexemes with which it does not go on. -/
def Grammar.Phrase.EndsBefore (phrase : Phrase) (rest : List Lexeme) : Prop :=
  ∀ next ∈ rest.head?, phrase.endsAt next.kind = true

/-- An operand never goes on. -/
theorem Grammar.Phrase.operand_endsBefore (rest : List Lexeme) : operand.EndsBefore rest :=
  fun _ _ => rfl

theorem Grammar.Phrase.endsBefore_cons {phrase : Phrase} {next : Lexeme} {rest : List Lexeme}
    {kind : Kind} (same : next.kind = kind) (ends : phrase.endsAt kind = true) :
    phrase.EndsBefore (next :: rest) := by
  intro first isFirst
  cases isFirst
  rw [same]
  exact ends

namespace Wording

theorem length_eq_size {phrase : Phrase} {wording : Wording phrase} {lexemes : List Lexeme}
    (spelled : SpelledBy lexemes wording.symbols) : lexemes.length = wording.size :=
  length_of_spelledBy spelled

/-- A phrase that is worded is derived, in front of whatever it does not go on with. -/
theorem reads {phrase : Phrase} (wording : Wording phrase) {lexemes rest : List Lexeme}
    (spelled : SpelledBy lexemes wording.symbols) (ends : phrase.EndsBefore rest) :
    Reads phrase (lexemes ++ rest)
      (phrase.expressions (wording.tree (placesOf (lexemes ++ rest)))) rest := by
  induction wording generalizing lexemes rest with
  | ident literal =>
      obtain ⟨lexeme, rfl, same⟩ := List.map_eq_singleton_iff.mp spelled
      have reads : Reads .operand (lexeme :: rest) [.ident (nameOf lexeme)] rest :=
        .name (kind_of_symbol_word same)
      rw [nameOf_of_symbol_word same] at reads
      exact reads
  | integer literal =>
      obtain ⟨lexeme, rfl, same⟩ := List.map_eq_singleton_iff.mp spelled
      have kind : lexeme.kind = .integer := congrArg Symbol.kind same
      have text : lexeme.literal = literal := congrArg Symbol.literal same
      subst text
      exact .integer kind
  | string literal =>
      obtain ⟨lexeme, rfl, same⟩ := List.map_eq_singleton_iff.mp spelled
      have kind : lexeme.kind = .string := congrArg Symbol.kind same
      have text : lexeme.literal = literal := congrArg Symbol.literal same
      subst text
      exact .string kind
  | paren inner ih =>
      obtain ⟨opening, _, rfl, opens, behind⟩ := List.map_eq_cons_iff.mp spelled
      obtain ⟨inside, _, rfl, written, last⟩ := List.map_eq_append_iff.mp behind
      obtain ⟨closing, rfl, closes⟩ := List.map_eq_singleton_iff.mp last
      have closesKind := kind_of_symbol_mark closes
      have innerEnds : Phrase.expression.EndsBefore (closing :: rest) :=
        Phrase.endsBefore_cons closesKind (by decide)
      rw [List.cons_append, List.append_assoc]
      exact .paren (kind_of_symbol_mark opens) (ih written innerEnds) closesKind
  | bare operand ih =>
      refine .bare (ih spelled (Phrase.operand_endsBefore rest)) ?_
      intro next isNext
      simpa [Phrase.endsAt] using ends next isNext
  | selector base member ih =>
      obtain ⟨front, _, rfl, written, behind⟩ := List.map_eq_append_iff.mp spelled
      obtain ⟨point, _, rfl, points, last⟩ := List.map_eq_cons_iff.mp behind
      obtain ⟨name, rfl, named⟩ := List.map_eq_singleton_iff.mp last
      have baseReads := ih written (Phrase.operand_endsBefore (point :: name :: rest))
      have whole := Reads.selector baseReads (kind_of_symbol_mark points)
        (kind_of_symbol_word named)
      rw [nameOf_of_symbol_word named] at whole
      rw [List.append_assoc, List.cons_append, tree,
        drop_placesOf (length_eq_size written)]
      exact whole
  | call callee arguments calleeIh argumentsIh =>
      obtain ⟨front, _, rfl, written, behind⟩ := List.map_eq_append_iff.mp spelled
      obtain ⟨opening, _, rfl, opens, inner⟩ := List.map_eq_cons_iff.mp behind
      obtain ⟨inside, _, rfl, writtenInside, last⟩ := List.map_eq_append_iff.mp inner
      obtain ⟨closing, rfl, closes⟩ := List.map_eq_singleton_iff.mp last
      have opensKind := kind_of_symbol_mark opens
      have closesKind := kind_of_symbol_mark closes
      have insideEnds : Phrase.arguments.EndsBefore (closing :: rest) :=
        Phrase.endsBefore_cons closesKind (by decide)
      have calleeReads := calleeIh written
        (Phrase.operand_endsBefore (opening :: (inside ++ closing :: rest)))
      have argumentsRead := argumentsIh writtenInside insideEnds
      have frontLength : front.length = callee.size := length_eq_size written
      have insideLength : inside.length = arguments.size := length_eq_size writtenInside
      have shape : front ++ opening :: (inside ++ [closing]) ++ rest =
          front ++ opening :: (inside ++ closing :: rest) := by
        simp
      rw [shape, tree, getD_placesOf frontLength, drop_placesOf frontLength,
        getD_placesOf insideLength]
      exact .call calleeReads opensKind argumentsRead closesKind
  | index base subscript baseIh subscriptIh =>
      obtain ⟨front, _, rfl, written, behind⟩ := List.map_eq_append_iff.mp spelled
      obtain ⟨opening, _, rfl, opens, inner⟩ := List.map_eq_cons_iff.mp behind
      obtain ⟨inside, _, rfl, writtenInside, last⟩ := List.map_eq_append_iff.mp inner
      obtain ⟨closing, rfl, closes⟩ := List.map_eq_singleton_iff.mp last
      have opensKind := kind_of_symbol_mark opens
      have closesKind := kind_of_symbol_mark closes
      have insideEnds : Phrase.expression.EndsBefore (closing :: rest) :=
        Phrase.endsBefore_cons closesKind (by decide)
      have baseReads := baseIh written
        (Phrase.operand_endsBefore (opening :: (inside ++ closing :: rest)))
      have subscriptReads := subscriptIh writtenInside insideEnds
      have shape : front ++ opening :: (inside ++ [closing]) ++ rest =
          front ++ opening :: (inside ++ closing :: rest) := by
        simp
      rw [shape, tree, drop_placesOf (length_eq_size written)]
      exact .index baseReads opensKind subscriptReads closesKind
  | noArgument =>
      cases List.map_eq_nil_iff.mp spelled
      refine .noMore ?_
      intro next isNext
      simpa [Phrase.endsAt] using ends next isNext
  | lastArgument only ih =>
      have closes : ∀ next ∈ rest.head?, next.kind = .rightParen := by
        intro next isNext
        simpa [Phrase.endsAt] using ends next isNext
      have onlyEnds : Phrase.primary.EndsBefore rest := by
        intro next isNext
        rw [closes next isNext]
        decide
      exact .argument (ih spelled onlyEnds) (.noMore closes)
  | argument first others firstIh othersIh =>
      obtain ⟨front, _, rfl, written, behind⟩ := List.map_eq_append_iff.mp spelled
      obtain ⟨comma, back, rfl, separates, writtenBack⟩ := List.map_eq_cons_iff.mp behind
      have commaKind := kind_of_symbol_mark separates
      have firstEnds : Phrase.primary.EndsBefore (comma :: (back ++ rest)) :=
        Phrase.endsBefore_cons commaKind (by decide)
      have firstReads := firstIh written firstEnds
      have othersRead := othersIh writtenBack ends
      rw [List.append_assoc, List.cons_append, tree,
        drop_placesOf (length_eq_size written)]
      exact .argument firstReads (.comma commaKind othersRead)
  | primary only ih =>
      have goesOn : ∀ next ∈ rest.head?, opensSuffix next.kind = false ∧
          operator? next.kind = none := by
        intro next isNext
        simpa [Phrase.endsAt] using ends next isNext
      have onlyEnds : Phrase.primary.EndsBefore rest := by
        intro next isNext
        simp [Phrase.endsAt, goesOn next isNext]
      exact .primary (ih spelled onlyEnds) fun next isNext => (goesOn next isNext).2
  | binary left operator right leftIh rightIh =>
      obtain ⟨front, _, rfl, written, behind⟩ := List.map_eq_append_iff.mp spelled
      obtain ⟨mark, back, rfl, marks, writtenBack⟩ := List.map_eq_cons_iff.mp behind
      have markKind := kind_of_symbol_mark marks
      have leftEnds : Phrase.primary.EndsBefore (mark :: (back ++ rest)) :=
        Phrase.endsBefore_cons markKind (by cases operator <;> decide)
      have leftReads := leftIh written leftEnds
      have rightReads := rightIh writtenBack ends
      have frontLength : front.length = left.size := length_eq_size written
      rw [List.append_assoc, List.cons_append, tree, getD_placesOf frontLength,
        drop_placesOf frontLength]
      exact .binary leftReads (operator?_eq_some.mpr markKind) rightReads

theorem opens {phrase : Phrase} (wording : Wording phrase) (one : phrase ≠ .arguments) :
    ∃ first others, wording.symbols = first :: others ∧ opensOperand first.kind = true ∧
      (first.kind = .leftParen → first = .mark .leftParen) := by
  induction wording with
  | ident literal => exact ⟨_, [], rfl, rfl, nofun⟩
  | integer literal => exact ⟨_, [], rfl, rfl, nofun⟩
  | string literal => exact ⟨_, [], rfl, rfl, nofun⟩
  | paren inner ih => exact ⟨_, _, rfl, rfl, fun _ => rfl⟩
  | bare operand ih => exact ih (by decide)
  | selector base member ih =>
      obtain ⟨first, others, same, opens⟩ := ih (by decide)
      exact ⟨first, others ++ [.mark .period, .word member], by simp [symbols, same], opens⟩
  | call callee arguments calleeIh argumentsIh =>
      obtain ⟨first, others, same, opens⟩ := calleeIh (by decide)
      refine ⟨first, others ++ .mark .leftParen :: (arguments.symbols ++ [.mark .rightParen]),
        ?_, opens⟩
      simp [symbols, same]
  | index base subscript baseIh subscriptIh =>
      obtain ⟨first, others, same, opens⟩ := baseIh (by decide)
      refine ⟨first,
        others ++ .mark .leftBracket :: (subscript.symbols ++ [.mark .rightBracket]), ?_, opens⟩
      simp [symbols, same]
  | noArgument => exact absurd rfl one
  | lastArgument only ih => exact absurd rfl one
  | argument first others firstIh othersIh => exact absurd rfl one
  | primary only ih => exact ih (by decide)
  | binary left operator right leftIh rightIh =>
      obtain ⟨first, others, same, opens⟩ := leftIh (by decide)
      exact ⟨first, others ++ .mark operator.kind :: right.symbols, by simp [symbols, same], opens⟩

/-! ## Parts in sequence -/

/-- The first part has all the places, the others those behind its lexemes. -/
theorem inSequence_cons {Part Tree : Type} {symbols : Part → List Symbol}
    {trees : Part → List Nat → List Tree} {part : Part} {parts : List Part}
    {front back : List Lexeme} (spelled : SpelledBy front (symbols part)) :
    inSequence symbols trees (part :: parts) (placesOf (front ++ back)) =
      trees part (placesOf (front ++ back)) ++ inSequence symbols trees parts (placesOf back) := by
  rw [inSequence, ← length_of_spelledBy spelled]
  simp [placesOf]

/-! ## Bodies -/

theorem endsAt_of_opensOperand {kind : Kind} (opens : opensOperand kind = true)
    (other : kind ≠ .leftParen) :
    Phrase.expression.endsAt kind = true ∧ kind ≠ .semicolon ∧ kind ≠ .rightBrace := by
  revert opens other
  cases kind <;> decide

/-- An expression that does not begin with a parenthesis ends the one in front of it. -/
theorem endsBefore_of_noParen {expression : Wording .expression} {lexemes : List Lexeme}
    (rest : List Lexeme) (spelled : SpelledBy lexemes expression.symbols)
    (noParen : expression.symbols.head? ≠ some (.mark .leftParen)) :
    Phrase.expression.EndsBefore (lexemes ++ rest) ∧ endsStatement (lexemes ++ rest) = false := by
  obtain ⟨symbol, others, same, opens, paren⟩ := expression.opens (by decide)
  rw [SpelledBy, same] at spelled
  obtain ⟨first, behind, rfl, isFirst, _⟩ := List.map_eq_cons_iff.mp spelled
  have kind : first.kind = symbol.kind := congrArg Symbol.kind isFirst
  have other : symbol.kind ≠ .leftParen := by
    intro isParen
    rw [same, paren isParen] at noParen
    exact noParen rfl
  rw [← kind] at opens other
  obtain ⟨ends, noSemicolon, noBrace⟩ := endsAt_of_opensOperand opens other
  exact ⟨Phrase.endsBefore_cons rfl ends, by simp [endsStatement, noSemicolon, noBrace]⟩

end Wording

end ContractLens
