import ContractLens.Proofs.Grammar.Canonical
import ContractLens.Proofs.Grammar.Passage
import ContractLens.Proofs.Syntax.Equality
import Mathlib.Control.Monad.Basic

/-!
# Bodies and values without loss

Between its braces a function has the symbols of its expressions, in their order,
and besides only commas and semicolons; a state variable has the symbols of its
value behind `=`, and besides only commas.  So a text that is accepted can be told
from its tree, up to these separators.
-/

namespace ContractLens

/--
The body of a function stands among the lexemes, behind its name, up to the brace
that closes it or up to the end.
-/
inductive ContractFunction.SpelledIn (function : ContractFunction) : List Lexeme → Prop where
  | intro {before words inside after : List Lexeme} {opening closing brace : Lexeme} :
      opening.kind = .leftParen →
        closing.kind = .rightParen →
        (∀ word ∈ words, word.kind = .identifier) →
        brace.kind = .leftBrace →
        (∀ lexeme ∈ inside, lexeme.kind ≠ .rightBrace) →
        (∀ next ∈ after.head?, next.kind = .rightBrace) →
        (inside.filter (·.kind ∉ [.comma, .semicolon])).map Lexeme.symbol =
          function.body.flatMap Expression.symbols →
        function.SpelledIn (before ++ function.name.lexeme :: opening :: closing ::
          (words ++ brace :: (inside ++ after)))

/-- The value of a state variable stands among the lexemes, behind its name and `=`. -/
inductive StateVariable.SpelledIn (declaration : StateVariable) : List Lexeme → Prop where
  | intro {before inside after : List Lexeme} {assign stop : Lexeme} :
      assign.kind = .assign →
        (∀ lexeme ∈ inside, lexeme.kind ≠ .semicolon) →
        stop.kind = .semicolon →
        (inside.filter (·.kind ∉ [.comma])).map Lexeme.symbol = declaration.value.symbols →
        declaration.SpelledIn (before ++ declaration.name.lexeme :: assign ::
          (inside ++ stop :: after))

theorem ContractFunction.SpelledIn.behind {function : ContractFunction} {lexemes : List Lexeme}
    (spelled : function.SpelledIn lexemes) (front : List Lexeme) :
    function.SpelledIn (front ++ lexemes) := by
  obtain ⟨opens, closes, words, braces, noBrace, ends, symbols⟩ := spelled
  rw [← List.append_assoc]
  exact .intro opens closes words braces noBrace ends symbols

theorem StateVariable.SpelledIn.behind {declaration : StateVariable} {lexemes : List Lexeme}
    (spelled : declaration.SpelledIn lexemes) (front : List Lexeme) :
    declaration.SpelledIn (front ++ lexemes) := by
  obtain ⟨assigns, noStop, stops, symbols⟩ := spelled
  rw [← List.append_assoc]
  exact .intro assigns noStop stops symbols

namespace Grammar

/-! ## Signs and separators -/

theorem map_symbol_flatMap_signs (expressions : List Expression) :
    (expressions.flatMap Expression.signs).map Sign.symbol =
      expressions.flatMap Expression.symbols := by
  rw [List.map_flatMap]
  rfl

theorem inExpression_of_mem_flatMap {expressions : List Expression} {sign : Sign}
    (member : sign ∈ expressions.flatMap Expression.signs) :
    sign.symbol.kind.inExpression = true := by
  obtain ⟨expression, _, inside⟩ := List.mem_flatMap.mp member
  exact expression.inExpression_of_mem_signs sign inside

/-- Expressions spelled with separators have their own symbols and those of the separators. -/
theorem symbols_of_spelled {passed : List Kind} {expressions : List Expression}
    {lexemes : List Lexeme}
    (spelled : Spelled passed (expressions.flatMap Expression.signs) lexemes)
    (separators : ∀ kind ∈ passed, kind.inExpression = false) :
    (lexemes.filter (·.kind ∉ passed)).map Lexeme.symbol =
      expressions.flatMap Expression.symbols := by
  rw [← map_symbol_flatMap_signs]
  apply spelled.map_symbol_filter
  intro sign member passes
  have outside := separators _ passes
  rw [inExpression_of_mem_flatMap member] at outside
  cases outside

theorem kind_ne_of_spelled {passed : List Kind} {expressions : List Expression}
    {lexemes : List Lexeme} {kind : Kind}
    (spelled : Spelled passed (expressions.flatMap Expression.signs) lexemes)
    (notPassed : kind ∉ passed) (outside : kind.inExpression = false) :
    ∀ lexeme ∈ lexemes, lexeme.kind ≠ kind := by
  rintro lexeme member rfl
  rcases spelled.kind_mem lexeme member with passes | ⟨sign, inside, same⟩
  · exact notPassed passes
  · rw [← same, inExpression_of_mem_flatMap inside] at outside
    cases outside

/-! ## Members -/

theorem kind_of_statesVisibility {words : List Lexeme} {visibility : Visibility}
    (states : StatesVisibility words visibility) : ∀ word ∈ words, word.kind = .identifier := by
  cases states with
  | word identifier _ => simpa using identifier
  | silent => simp

/-- A function is spelled in the lexemes from its name on. -/
theorem ReadsFunction.spelledIn {lexemes rest : List Lexeme} {function : ContractFunction}
    (reads : ReadsFunction lexemes function rest)
    (faithful : ∀ lexeme ∈ lexemes, lexeme.Faithful) : function.SpelledIn lexemes := by
  cases reads with
  | @intro name opening closing brace words inside rest visibility body isName opens closes states
      braces reads =>
      obtain ⟨taken, after, rfl, spelled, ends⟩ :=
        reads.spelled fun lexeme member => faithful lexeme (by simp [member])
      have closed : ∀ next ∈ after.head?, next.kind = .rightBrace := by
        rcases ends with ⟨rfl, rfl⟩ | ⟨last, isBrace, rfl⟩
        · simp
        · simpa using isBrace
      have noBrace : ∀ lexeme ∈ taken, lexeme.kind ≠ .rightBrace :=
        kind_ne_of_spelled spelled (by decide) rfl
      have symbols := symbols_of_spelled spelled (by decide)
      have whole : ContractFunction.SpelledIn ⟨nameOf name, visibility, body⟩
          ([] ++ (nameOf name).lexeme :: opening :: closing ::
            (words ++ brace :: (taken ++ after))) :=
        .intro opens closes (kind_of_statesVisibility states) braces noBrace closed symbols
      rw [lexeme_nameOf isName] at whole
      exact whole

/-- A state variable is spelled in the lexemes behind its type. -/
theorem ReadsVariable.spelledIn {type : Ident} {lexemes rest : List Lexeme}
    {declaration : StateVariable} (reads : ReadsVariable type lexemes declaration rest)
    (faithful : ∀ lexeme ∈ lexemes, lexeme.Faithful) : declaration.SpelledIn lexemes := by
  cases reads with
  | @intro assign stop lexemes inside rest header value accepts assigns reads stops =>
      obtain ⟨words, name, rfl, isName, same⟩ := name_of_readHeader accepts
      obtain ⟨taken, rfl, spelled⟩ :=
        reads.spelled fun lexeme member => faithful lexeme (by simp [member])
      have noStop : ∀ lexeme ∈ taken, lexeme.kind ≠ .semicolon :=
        kind_ne_of_spelled spelled (by decide) rfl
      have symbols := symbols_of_spelled spelled (by decide)
      rw [List.flatMap_singleton] at symbols
      have whole : StateVariable.SpelledIn
          ⟨type, header.visibility, header.isConstant, header.name, value⟩
            (words ++ header.name.lexeme :: assign :: (taken ++ stop :: rest)) :=
        .intro assigns noStop stops symbols
      rw [← same, lexeme_nameOf isName] at whole
      rw [← same]
      exact whole

def Member.SpelledIn (lexemes : List Lexeme) : Member → Prop
  | stateVariable declaration => declaration.SpelledIn lexemes
  | function routine => routine.SpelledIn lexemes

def Member.Canonical : Member → Prop
  | stateVariable declaration => declaration.value.Canonical
  | function routine => ∀ expression ∈ routine.body, expression.Canonical

theorem Member.SpelledIn.behind {member : Member} {lexemes : List Lexeme}
    (spelled : member.SpelledIn lexemes) (front : List Lexeme) :
    member.SpelledIn (front ++ lexemes) := by
  cases member with
  | stateVariable declaration => exact StateVariable.SpelledIn.behind spelled front
  | function routine => exact ContractFunction.SpelledIn.behind spelled front

theorem ReadsFunction.canonical {lexemes rest : List Lexeme} {function : ContractFunction}
    (reads : ReadsFunction lexemes function rest) :
    ∀ expression ∈ function.body, expression.Canonical := by
  cases reads with
  | intro _ _ _ _ _ body => exact body.canonical

theorem ReadsVariable.canonical {type : Ident} {lexemes rest : List Lexeme}
    {declaration : StateVariable} (reads : ReadsVariable type lexemes declaration rest) :
    declaration.value.Canonical := by
  cases reads with
  | intro _ _ value _ => exact value.canonical_expression

/-- A member is read without loss, and its expressions are canonical. -/
def Member.Lossless (lexemes : List Lexeme) (member : Member) : Prop :=
  member.SpelledIn lexemes ∧ member.Canonical

theorem Member.Lossless.behind {member : Member} {lexemes : List Lexeme}
    (lossless : member.Lossless lexemes) (front : List Lexeme) :
    member.Lossless (front ++ lexemes) :=
  ⟨Member.SpelledIn.behind lossless.1 front, lossless.2⟩

theorem ReadsMembers.lossless {lexemes rest : List Lexeme} {members : List Member}
    (reads : ReadsMembers lexemes members rest)
    (faithful : ∀ lexeme ∈ lexemes, lexeme.Faithful) :
    ∀ member ∈ members, member.Lossless lexemes := by
  apply reads.forall_mem Member.Lossless
  · intro lexemes member front lossless
    exact lossless.behind front
  · intro lexemes rest function reads faithful
    exact ⟨reads.spelledIn faithful, reads.canonical⟩
  · intro type lexemes rest declaration reads faithful
    exact ⟨reads.spelledIn faithful, reads.canonical⟩
  · exact faithful

end Grammar

/-! ## Programs -/

/-- The members of a contract are read without loss, and its expressions are canonical. -/
structure Contract.Lossless (contract : Contract) (lexemes : List Lexeme) : Prop where
  functions : ∀ function ∈ contract.functions, function.SpelledIn lexemes
  stateVariables : ∀ declaration ∈ contract.stateVariables, declaration.SpelledIn lexemes
  canonical : ∀ expression ∈ contract.expressions, expression.Canonical

theorem Contract.Lossless.behind {contract : Contract} {lexemes : List Lexeme}
    (lossless : contract.Lossless lexemes) (front : List Lexeme) :
    contract.Lossless (front ++ lexemes) where
  functions function member := (lossless.functions function member).behind front
  stateVariables declaration member := (lossless.stateVariables declaration member).behind front
  canonical := lossless.canonical

namespace Grammar

theorem lossless_contractOf {name : Ident} {bases : List Ident} {members : List Member}
    {lexemes : List Lexeme} (each : ∀ member ∈ members, member.Lossless lexemes) :
    (contractOf name bases members).Lossless lexemes := by
  constructor
  · intro function inside
    exact (each _ (function_mem_of_contractOf inside)).1
  · intro declaration inside
    exact (each _ (stateVariable_mem_of_contractOf inside)).1
  · intro expression inside
    obtain ⟨member, listed, inside⟩ := exists_member_of_mem_expressions inside
    cases member with
    | stateVariable declaration =>
        cases List.mem_singleton.mp inside
        exact (each _ listed).2
    | function routine => exact (each _ listed).2 expression inside

theorem ReadsContract.lossless {lexemes rest : List Lexeme} {contract : Contract}
    (reads : ReadsContract lexemes contract rest)
    (faithful : ∀ lexeme ∈ lexemes, lexeme.Faithful) : contract.Lossless lexemes := by
  cases reads with
  | @intro name brace lexemes inside rest bases members _ inherits _ reads =>
      obtain ⟨front, rfl, _⟩ := inherits.recorded
      have each := reads.lossless fun lexeme member => faithful lexeme (by simp [member])
      have whole : (contractOf (nameOf name) bases members).Lossless
          ((name :: (front ++ [brace])) ++ inside) :=
        (lossless_contractOf each).behind _
      simpa using whole

theorem ReadsItems.lossless {lexemes : List Lexeme} {items : List Item}
    (reads : ReadsItems lexemes items) (faithful : ∀ lexeme ∈ lexemes, lexeme.Faithful) :
    ∀ contract ∈ items.filterMap Item.contract?, contract.Lossless lexemes := by
  apply reads.forall_contract fun lexemes contract => contract.Lossless lexemes
  · intro lexemes contract front lossless
    exact lossless.behind front
  · intro lexemes rest contract reads faithful
    exact reads.lossless faithful
  · exact faithful

end Grammar

/--
What is read from a text stands there: the lexemes of every body and every value
are the symbols of the tree, up to separators, and the tree is canonical.
-/
theorem lossless_of_parse {text : String} {program : Program}
    (parsed : (parse text).1 = .ok program) :
    ∀ contract ∈ program.contracts, contract.Lossless (lexemesOf text) := by
  obtain ⟨items, reads, rfl⟩ := parse_eq_ok_iff.mp parsed
  exact reads.lossless faithful_of_mem_lexemesFrom

/-- Two expressions of one statement, an empty statement and commas that are left out. -/
theorem lossless_with_separators :
    ∃ contract : Contract,
      (parse "contract A { function f() { a b; ; c(1 2,); } }").1 = .ok ⟨none, [], [contract]⟩ ∧
        contract.Lossless (lexemesOf "contract A { function f() { a b; ; c(1 2,); } }") := by
  let contract : Contract := ⟨⟨"A", 9⟩, [], [], [⟨⟨"f", 22⟩, .pub,
    [.ident ⟨"a", 28⟩, .ident ⟨"b", 30⟩,
      .call (.ident ⟨"c", 35⟩) [.literal .integer "1" 37, .literal .integer "2" 39] 36 41]⟩]⟩
  have parsed : (parse "contract A { function f() { a b; ; c(1 2,); } }").1 =
      .ok ⟨none, [], [contract]⟩ := by
    decide +kernel
  exact ⟨contract, parsed, lossless_of_parse parsed contract (List.mem_singleton_self _)⟩

end ContractLens
