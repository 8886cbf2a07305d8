import ContractLens.Proofs.Grammar.ProgramDerivation
import ContractLens.Proofs.Syntax.Sign

/-!
# Spelling

What a phrase takes from a list of lexemes are the signs of the expressions that
it means, in their order, and commas.  Bodies have semicolons besides.  So nothing
is lost, invented or moved on the way from the lexemes to the tree.
-/

namespace ContractLens

open Grammar

/-- The lexemes are the signs in their order, and besides only lexemes of the passed kinds. -/
inductive Spelled (passed : List Kind) : List Sign → List Lexeme → Prop where
  | nil : Spelled passed [] []
  | pass {lexeme : Lexeme} {signs : List Sign} {lexemes : List Lexeme} :
      lexeme.kind ∈ passed →
        Spelled passed signs lexemes →
        Spelled passed signs (lexeme :: lexemes)
  | sign {sign : Sign} {lexeme : Lexeme} {signs : List Sign} {lexemes : List Lexeme} :
      sign.Describes lexeme →
        Spelled passed signs lexemes →
        Spelled passed (sign :: signs) (lexeme :: lexemes)

namespace Spelled

variable {passed : List Kind} {signs others : List Sign} {lexemes behind : List Lexeme}

theorem append (front : Spelled passed signs lexemes) (back : Spelled passed others behind) :
    Spelled passed (signs ++ others) (lexemes ++ behind) := by
  induction front with
  | nil => exact back
  | pass member _ ih => exact .pass member ih
  | sign describes _ ih => exact .sign describes ih

theorem of_append (spelled : Spelled passed (signs ++ others) lexemes) :
    ∃ front back, lexemes = front ++ back ∧ Spelled passed signs front ∧
      Spelled passed others back := by
  generalize whole : signs ++ others = all at spelled
  induction spelled generalizing signs with
  | nil =>
      obtain ⟨rfl, rfl⟩ := List.append_eq_nil_iff.mp whole
      exact ⟨[], [], rfl, .nil, .nil⟩
  | @pass lexeme _ _ member _ ih =>
      obtain ⟨front, back, rfl, first, second⟩ := ih whole
      exact ⟨lexeme :: front, back, rfl, .pass member first, second⟩
  | @sign sign lexeme _ lexemes describes behind ih =>
      cases signs with
      | nil =>
          subst whole
          exact ⟨[], lexeme :: lexemes, rfl, .nil, .sign describes behind⟩
      | cons first signs =>
          cases whole
          obtain ⟨front, back, rfl, spelled, second⟩ := ih rfl
          exact ⟨lexeme :: front, back, rfl, .sign describes spelled, second⟩

/-- In front of the lexeme that is the first sign there are only passed ones. -/
theorem of_cons {sign : Sign} (spelled : Spelled passed (sign :: signs) lexemes) :
    ∃ skipped lexeme behind, lexemes = skipped ++ lexeme :: behind ∧ sign.Describes lexeme ∧
      Spelled passed signs behind := by
  generalize whole : sign :: signs = all at spelled
  induction spelled with
  | nil => cases whole
  | @pass lexeme _ _ _ _ ih =>
      obtain ⟨skipped, first, behind, rfl, describes, others⟩ := ih whole
      exact ⟨lexeme :: skipped, first, behind, rfl, describes, others⟩
  | @sign _ lexeme _ behind describes others _ =>
      cases whole
      exact ⟨[], lexeme, behind, rfl, describes, others⟩

theorem single {sign : Sign} {lexeme : Lexeme} (describes : sign.Describes lexeme) :
    Spelled passed [sign] [lexeme] :=
  .sign describes .nil

theorem mono {larger : List Kind} (spelled : Spelled passed signs lexemes)
    (within : passed ⊆ larger) : Spelled larger signs lexemes := by
  induction spelled with
  | nil => exact .nil
  | pass member _ ih => exact .pass (within member) ih
  | sign describes _ ih => exact .sign describes ih

/-- Without the passed kinds the lexemes have the symbols of the signs. -/
theorem map_symbol_filter (spelled : Spelled passed signs lexemes)
    (apart : ∀ sign ∈ signs, sign.symbol.kind ∉ passed) :
    (lexemes.filter (·.kind ∉ passed)).map Lexeme.symbol = signs.map Sign.symbol := by
  induction spelled with
  | nil => rfl
  | pass member _ ih =>
      rw [List.filter_cons_of_neg (by simpa using member)]
      exact ih apart
  | @sign sign lexeme signs lexemes describes _ ih =>
      have same : lexeme.kind = sign.symbol.kind := congrArg Symbol.kind describes.1
      have notPassed : lexeme.kind ∉ passed := by
        rw [same]
        exact apart sign (by simp)
      rw [List.filter_cons_of_pos (by simpa using notPassed), List.map_cons, List.map_cons,
        describes.1, ih fun other member => apart other (by simp [member])]

theorem kind_mem (spelled : Spelled passed signs lexemes) :
    ∀ lexeme ∈ lexemes, lexeme.kind ∈ passed ∨ ∃ sign ∈ signs, sign.symbol.kind = lexeme.kind := by
  induction spelled with
  | nil => simp
  | @pass first _ _ member _ ih =>
      intro lexeme inside
      rcases List.mem_cons.mp inside with rfl | inside
      · exact .inl member
      · exact ih lexeme inside
  | @sign sign first _ _ describes _ ih =>
      intro lexeme inside
      rcases List.mem_cons.mp inside with rfl | inside
      · exact .inr ⟨sign, by simp, (congrArg Symbol.kind describes.1).symm⟩
      · rcases ih lexeme inside with member | ⟨other, member, same⟩
        · exact .inl member
        · exact .inr ⟨other, by simp [member], same⟩

/-- The signs with an offset are lexemes, in their order. -/
theorem sublist (spelled : Spelled passed signs lexemes) :
    (signs.filterMap Sign.lexeme?).Sublist lexemes := by
  induction spelled with
  | nil => exact .slnil
  | pass _ _ ih => exact ih.cons _
  | @sign sign lexeme signs lexemes describes _ ih =>
      obtain ⟨⟨kind, literal⟩, pos?⟩ := sign
      obtain ⟨pos, _, _⟩ := lexeme
      obtain ⟨same, place⟩ := describes
      cases same
      cases pos? with
      | none => exact ih.cons _
      | some recorded =>
          cases place recorded rfl
          exact ih.cons_cons _

end Spelled

theorem Grammar.describes_nameOf {lexeme : Lexeme} (identifier : lexeme.kind = .identifier) :
    (Sign.name (nameOf lexeme)).Describes lexeme := by
  simp [Sign.Describes, Sign.name, nameOf, Symbol.word, Lexeme.symbol, identifier]

theorem Grammar.describes_literal {kind : LiteralKind} {lexeme : Lexeme}
    (same : lexeme.kind = kind.kind) :
    Sign.Describes ⟨⟨kind.kind, lexeme.literal⟩, some lexeme.pos⟩ lexeme := by
  simp [Sign.Describes, Lexeme.symbol, same]

namespace Lexeme.Faithful

variable {lexeme : Lexeme} {kind : Kind}

theorem describes_mark (faithful : lexeme.Faithful) (same : lexeme.kind = kind)
    (isMark : kind.isMark = true) : (Sign.mark kind lexeme.pos).Describes lexeme := by
  refine ⟨faithful.symbol_eq same isMark, ?_⟩
  simp [Sign.mark]

theorem describes_bare (faithful : lexeme.Faithful) (same : lexeme.kind = kind)
    (isMark : kind.isMark = true) : (Sign.bare kind).Describes lexeme := by
  refine ⟨faithful.symbol_eq same isMark, ?_⟩
  simp [Sign.bare]

end Lexeme.Faithful

/-- A phrase takes the signs of what it means, and commas. -/
theorem Grammar.Reads.spelled {phrase : Phrase} {lexemes rest : List Lexeme}
    {meaning : List Expression} (reads : Reads phrase lexemes meaning rest)
    (faithful : ∀ lexeme ∈ lexemes, lexeme.Faithful) :
    ∃ taken, lexemes = taken ++ rest ∧
      Spelled [.comma] (meaning.flatMap Expression.signs) taken := by
  induction reads with
  | @name lexeme rest identifier =>
      refine ⟨[lexeme], rfl, ?_⟩
      simpa [Expression.signs] using Spelled.single (describes_nameOf identifier)
  | @integer lexeme rest integer =>
      refine ⟨[lexeme], rfl, ?_⟩
      simpa [Expression.signs] using Spelled.single (describes_literal integer)
  | @string lexeme rest string =>
      refine ⟨[lexeme], rfl, ?_⟩
      simpa [Expression.signs] using Spelled.single (describes_literal string)
  | @paren opening closing inside rest inner opens _ closes ih =>
      obtain ⟨taken, rfl, spelled⟩ := ih fun lexeme member => faithful lexeme (by simp [member])
      have first := (faithful opening (by simp)).describes_mark opens rfl
      have last := (faithful closing (by simp)).describes_bare closes rfl
      refine ⟨opening :: (taken ++ [closing]), by simp, ?_⟩
      simpa [Expression.signs] using Spelled.sign first (spelled.append (.single last))
  | bare _ _ ih => exact ih faithful
  | @selector point member lexemes rest base _ period identifier ih =>
      obtain ⟨taken, rfl, spelled⟩ := ih faithful
      have first := (faithful point (by simp)).describes_bare period rfl
      refine ⟨taken ++ [point, member], by simp, ?_⟩
      simpa [Expression.signs] using
        spelled.append (.sign first (.single (describes_nameOf identifier)))
  | @call opening closing lexemes inside rest callee arguments _ opens _ closes calleeIh
      argumentsIh =>
      obtain ⟨front, rfl, calleeSpelled⟩ := calleeIh faithful
      obtain ⟨back, rfl, argumentsSpelled⟩ :=
        argumentsIh fun lexeme member => faithful lexeme (by simp [member])
      have first := (faithful opening (by simp)).describes_mark opens rfl
      have last := (faithful closing (by simp)).describes_mark closes rfl
      refine ⟨front ++ opening :: (back ++ [closing]), by simp, ?_⟩
      simpa [Expression.signs] using
        calleeSpelled.append (.sign first (argumentsSpelled.append (.single last)))
  | @index opening closing lexemes inside rest base subscript _ opens _ closes baseIh
      subscriptIh =>
      obtain ⟨front, rfl, baseSpelled⟩ := baseIh faithful
      obtain ⟨back, rfl, subscriptSpelled⟩ :=
        subscriptIh fun lexeme member => faithful lexeme (by simp [member])
      have first := (faithful opening (by simp)).describes_bare opens rfl
      have last := (faithful closing (by simp)).describes_bare closes rfl
      refine ⟨front ++ opening :: (back ++ [closing]), by simp, ?_⟩
      simpa [Expression.signs] using
        baseSpelled.append (.sign first (subscriptSpelled.append (.single last)))
  | noMore => exact ⟨[], rfl, .nil⟩
  | @comma comma lexemes rest arguments same _ ih =>
      obtain ⟨taken, rfl, spelled⟩ := ih fun lexeme member => faithful lexeme (by simp [member])
      exact ⟨comma :: taken, rfl, .pass (by simp [same]) spelled⟩
  | argument _ _ primaryIh argumentsIh =>
      obtain ⟨front, rfl, primarySpelled⟩ := primaryIh faithful
      obtain ⟨back, rfl, argumentsSpelled⟩ :=
        argumentsIh fun lexeme member => faithful lexeme (by simp [member])
      refine ⟨front ++ back, by simp, ?_⟩
      simpa using primarySpelled.append argumentsSpelled
  | primary _ _ ih => exact ih faithful
  | @binary mark lexemes behind rest left right operator _ stands _ leftIh rightIh =>
      obtain ⟨front, rfl, leftSpelled⟩ := leftIh faithful
      obtain ⟨back, rfl, rightSpelled⟩ :=
        rightIh fun lexeme member => faithful lexeme (by simp [member])
      have first := (faithful mark (by simp)).describes_mark (operator?_eq_some.mp stands)
        (by cases operator <;> rfl)
      refine ⟨front ++ mark :: back, by simp, ?_⟩
      simpa [Expression.signs] using leftSpelled.append (.sign first rightSpelled)

theorem Grammar.ReadsStatement.spelled {lexemes rest : List Lexeme} {statement : List Expression}
    (reads : ReadsStatement lexemes statement rest)
    (faithful : ∀ lexeme ∈ lexemes, lexeme.Faithful) :
    ∃ taken, lexemes = taken ++ rest ∧
      Spelled [.comma, .semicolon] (statement.flatMap Expression.signs) taken := by
  induction reads with
  | @last lexemes rest expression stop reads semicolon =>
      obtain ⟨taken, rfl, spelled⟩ := reads.spelled faithful
      refine ⟨taken ++ [stop], by simp, ?_⟩
      have stops : Spelled [.comma, .semicolon] [] [stop] := .pass (by simp [semicolon]) .nil
      simpa using (spelled.mono (by simp)).append stops
  | more reads _ _ ih =>
      obtain ⟨front, rfl, spelled⟩ := reads.spelled faithful
      obtain ⟨back, rfl, others⟩ := ih fun lexeme member => faithful lexeme (by simp [member])
      refine ⟨front ++ back, by simp, ?_⟩
      simpa using (spelled.mono (by simp)).append others

/--
A body takes the signs of its expressions, commas and semicolons, and then its
closing brace, unless the input ends first.
-/
theorem Grammar.ReadsBody.spelled {lexemes rest : List Lexeme} {body : List Expression}
    (reads : ReadsBody lexemes body rest) (faithful : ∀ lexeme ∈ lexemes, lexeme.Faithful) :
    ∃ inside after, lexemes = inside ++ after ∧
      Spelled [.comma, .semicolon] (body.flatMap Expression.signs) inside ∧
      (after = rest ∧ rest = [] ∨
        ∃ closing, closing.kind = .rightBrace ∧ after = closing :: rest) := by
  induction reads with
  | atEnd => exact ⟨[], [], rfl, .nil, .inl ⟨rfl, rfl⟩⟩
  | closed brace => exact ⟨[], _, rfl, .nil, .inr ⟨_, brace, rfl⟩⟩
  | @empty stop lexemes rest body semicolon _ ih =>
      obtain ⟨inside, after, rfl, spelled, ends⟩ :=
        ih fun lexeme member => faithful lexeme (by simp [member])
      exact ⟨stop :: inside, after, rfl, .pass (by simp [semicolon]) spelled, ends⟩
  | statement reads _ ih =>
      obtain ⟨front, rfl, spelled⟩ := reads.spelled faithful
      obtain ⟨inside, after, rfl, others, ends⟩ :=
        ih fun lexeme member => faithful lexeme (by simp [member])
      refine ⟨front ++ inside, after, by simp, ?_, ends⟩
      simpa using spelled.append others

end ContractLens
