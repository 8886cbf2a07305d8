import ContractLens.Proofs.Grammar.MemberCompleteness

/-!
# Completeness of reading programs

Contracts and whole programs that are worded are derived.  So a text that is
written as a wording says is accepted, and it states what the wording says it
states.
-/

namespace ContractLens

open Grammar

namespace Wording

/-! ## Contracts -/

theorem reads_members {members : List Member} {lexemes : List Lexeme} {closing : Lexeme}
    (rest : List Lexeme) (brace : closing.kind = .rightBrace)
    (spelled : SpelledBy lexemes (members.flatMap Member.symbols)) :
    ReadsMembers (lexemes ++ closing :: rest)
      (inSequence Member.symbols Member.tree members
        (placesOf (lexemes ++ closing :: rest))) rest := by
  induction members generalizing lexemes with
  | nil =>
      cases List.map_eq_nil_iff.mp spelled
      exact .closed brace
  | cons member members ih =>
      rw [SpelledBy, List.flatMap_cons] at spelled
      obtain ⟨front, back, rfl, spelledFirst, spelledOthers⟩ := List.map_eq_append_iff.mp spelled
      have behind := ih spelledOthers
      rw [List.append_assoc, inSequence_cons spelledFirst]
      cases member with
      | stray symbol other =>
          obtain ⟨lexeme, rfl, same⟩ := List.map_eq_singleton_iff.mp spelledFirst
          have kind : lexeme.kind = symbol.kind := congrArg Symbol.kind same
          rw [← kind] at other
          exact .stray other.2 other.1 behind
      | stateVariable declaration =>
          obtain ⟨type, inside, rfl, typed, reads⟩ := declaration.reads
            (back ++ closing :: rest) spelledFirst
          have noFunction : (isWord "constructor" type || isWord "function" type) = false := by
            rw [isWord_of_symbol typed, isWord_of_symbol typed]
            simpa using declaration.noFunction
          exact .stateVariable (kind_of_symbol_word typed) noFunction reads behind
      | function routine =>
          obtain ⟨keyword, inside, rfl, announces, reads⟩ := routine.reads
            (back ++ closing :: rest) spelledFirst
          exact .function announces reads behind

/-- Names with commas between them are derived as bases; every other lexeme is a name. -/
theorem reads_bases {first : String} {others : List String} {lexemes rest : List Lexeme}
    (ends : ∀ next ∈ rest.head?, next.kind ≠ .comma)
    (spelled : SpelledBy lexemes
      (.word first :: others.flatMap fun other => [.mark .comma, .word other])) :
    ReadsBases (lexemes ++ rest) ((first :: others).zipIdx.map fun (base, number) =>
      ⟨base, (placesOf (lexemes ++ rest)).getD (2 * number) 0⟩) rest := by
  induction others generalizing first lexemes with
  | nil =>
      obtain ⟨name, rfl, named⟩ := List.map_eq_singleton_iff.mp spelled
      have reads := ReadsBases.last (kind_of_symbol_word named) ends
      rw [nameOf_of_symbol_word named] at reads
      exact reads
  | cons second others ih =>
      obtain ⟨name, _, rfl, named, spelledComma⟩ := List.map_eq_cons_iff.mp spelled
      obtain ⟨comma, back, rfl, commas, spelledOthers⟩ := List.map_eq_cons_iff.mp spelledComma
      have reads := ReadsBases.more (kind_of_symbol_word named) (kind_of_symbol_mark commas)
        (ih spelledOthers)
      rw [nameOf_of_symbol_word named] at reads
      rw [List.zipIdx_cons, List.zipIdx_succ, List.map_cons, List.map_map]
      exact reads

theorem Contract.reads_inheritance (contract : Contract) (name : Lexeme)
    {lexemes inside : List Lexeme} {brace : Lexeme} (opens : brace.kind = .leftBrace)
    (spelled : SpelledBy lexemes contract.inheritance) :
    ReadsInheritance (lexemes ++ brace :: inside)
      (contract.bases.zipIdx.map fun (base, number) =>
        ⟨base, (placesOf (name :: (lexemes ++ brace :: inside))).getD (2 * number + 2) 0⟩)
      (brace :: inside) := by
  unfold inheritance at spelled
  cases named : contract.bases with
  | nil =>
      rw [named] at spelled
      cases List.map_eq_nil_iff.mp spelled
      refine .none ?_
      intro next isNext
      cases isNext
      simp [isWord, opens]
  | cons first others =>
      rw [named] at spelled
      obtain ⟨keyword, names, rfl, announces, spelledNames⟩ := List.map_eq_cons_iff.mp spelled
      have ends : ∀ next ∈ (brace :: inside).head?, next.kind ≠ .comma := by
        intro next isNext
        cases isNext
        simp [opens]
      exact .some (isWord_of_symbol announces) (reads_bases ends spelledNames)

theorem Contract.reads (contract : Contract) {lexemes : List Lexeme} (rest : List Lexeme)
    (spelled : SpelledBy lexemes contract.symbols) :
    ReadsContract (lexemes ++ rest) (contract.tree (placesOf (lexemes ++ rest))) rest := by
  obtain ⟨name, _, rfl, named, spelledBehind⟩ := List.map_eq_cons_iff.mp spelled
  obtain ⟨bases, _, rfl, spelledBases, spelledBrace⟩ := List.map_eq_append_iff.mp spelledBehind
  obtain ⟨brace, _, rfl, braces, spelledMembers⟩ := List.map_eq_cons_iff.mp spelledBrace
  obtain ⟨inside, _, rfl, spelledInside, spelledLast⟩ := List.map_eq_append_iff.mp spelledMembers
  obtain ⟨last, rfl, lasts⟩ := List.map_eq_singleton_iff.mp spelledLast
  have opens := kind_of_symbol_mark braces
  have members := reads_members rest (kind_of_symbol_mark lasts) spelledInside
  have reads := ReadsContract.intro (kind_of_symbol_word named)
    (contract.reads_inheritance name opens spelledBases) opens members
  have shape : name :: (bases ++ brace :: (inside ++ [last])) ++ rest =
      name :: (bases ++ brace :: (inside ++ last :: rest)) := by
    simp
  have membersPlaces : (placesOf (name :: (bases ++ brace :: (inside ++ last :: rest)))).drop
      (contract.inheritance.length + 2) = placesOf (inside ++ last :: rest) :=
    drop_placesOf (length_of_spelledBy spelledBases)
  rw [nameOf_of_symbol_word named] at reads
  rw [shape]
  simp only [tree, membersPlaces]
  exact reads

/-! ## Programs -/

end Wording

end ContractLens
