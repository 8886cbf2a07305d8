import ContractLens.Proofs.Grammar.Derivation

/-!
# Derivations of members

The grammar of statements, bodies, functions and state variables as relations
over the derivations of expressions.  Their readers accept exactly what can be
derived.
-/

namespace ContractLens.Grammar

open Outcome

/-! ## Bodies -/

inductive ReadsStatement : List Lexeme → List Expression → List Lexeme → Prop where
  | last {lexemes rest : List Lexeme} {expression : Expression} {stop : Lexeme} :
      Reads .expression lexemes [expression] (stop :: rest) →
        stop.kind = .semicolon →
        ReadsStatement lexemes [expression] rest
  | more {lexemes middle rest : List Lexeme} {first : Expression} {others : List Expression} :
      Reads .expression lexemes [first] middle →
        endsStatement middle = false →
        ReadsStatement middle others rest →
        ReadsStatement lexemes (first :: others) rest

/-- The statements of a body up to its closing brace, or to the end of the input. -/
inductive ReadsBody : List Lexeme → List Expression → List Lexeme → Prop where
  | atEnd : ReadsBody [] [] []
  | closed {closing : Lexeme} {rest : List Lexeme} :
      closing.kind = .rightBrace → ReadsBody (closing :: rest) [] rest
  | empty {stop : Lexeme} {lexemes rest : List Lexeme} {body : List Expression} :
      stop.kind = .semicolon →
        ReadsBody lexemes body rest →
        ReadsBody (stop :: lexemes) body rest
  | statement {lexemes middle rest : List Lexeme} {statement others : List Expression} :
      ReadsStatement lexemes statement middle →
        ReadsBody middle others rest →
        ReadsBody lexemes (statement ++ others) rest

theorem ReadsStatement.opens {lexemes rest : List Lexeme} {statement : List Expression}
    (reads : ReadsStatement lexemes statement rest) :
    ∃ first behind, lexemes = first :: behind ∧ opensOperand first.kind = true := by
  cases reads with
  | last expression => exact expression.opens (by simp)
  | more expression => exact expression.opens (by simp)

theorem accepts_readStatement {lexemes rest : List Lexeme} {statement : List Expression} :
    (readStatement lexemes).Accepts statement rest ↔ ReadsStatement lexemes statement rest := by
  constructor
  · intro accepts
    induction lexemes using readStatement.induct generalizing statement rest with
    | case1 lexemes ih =>
        rw [readStatement, accepts_andThen] at accepts
        obtain ⟨first, middle, expression, accepts⟩ := accepts
        have reads := accepts_readExpression.mp expression
        split at accepts
        · simp only [accepts_map, accepts_accept] at accepts
          obtain ⟨stop, ⟨rfl, semicolon⟩, rfl⟩ := accepts
          exact .last reads semicolon
        · next goesOn =>
            simp only [accepts_map] at accepts
            obtain ⟨others, accepts, rfl⟩ := accepts
            exact .more reads (by simpa using goesOn)
              (ih middle expression.shorter accepts)
  · intro reads
    induction reads with
    | last expression semicolon =>
        rw [readStatement, accepts_andThen]
        refine ⟨_, _, accepts_readExpression.mpr expression, ?_⟩
        simp [endsStatement, semicolon]
    | more expression goesOn others ih =>
        rw [readStatement, accepts_andThen]
        refine ⟨_, _, accepts_readExpression.mpr expression, ?_⟩
        simp only [goesOn, Bool.false_eq_true, ↓reduceIte, accepts_map]
        exact ⟨_, ih, rfl⟩

theorem accepts_readBody {lexemes rest : List Lexeme} {body : List Expression} :
    (readBody lexemes).Accepts body rest ↔ ReadsBody lexemes body rest := by
  constructor
  · intro accepts
    induction lexemes using readBody.induct generalizing body rest with
    | case1 =>
        rw [readBody, accepts_stay] at accepts
        obtain ⟨rfl, rfl⟩ := accepts
        exact .atEnd
    | case2 closing behind brace =>
        rw [readBody, if_pos brace, accepts_relax, accepts_take] at accepts
        obtain ⟨rfl, rfl⟩ := accepts
        exact .closed brace
    | case3 stop behind noBrace semicolon ih =>
        rw [readBody, if_neg noBrace, if_pos semicolon, accepts_relax] at accepts
        exact .empty semicolon (ih accepts)
    | case4 first behind noBrace noSemicolon ih =>
        rw [readBody, if_neg noBrace, if_neg noSemicolon, accepts_relax, accepts_andMaybe]
          at accepts
        obtain ⟨statement, middle, first, accepts⟩ := accepts
        obtain ⟨others, remaining, rfl⟩ := accepts_map.mp accepts
        exact .statement (accepts_readStatement.mp first) (ih middle first.shorter remaining)
  · intro reads
    induction reads with
    | atEnd => simp [readBody]
    | closed brace => simp [readBody, brace]
    | empty semicolon _ ih => simpa [readBody, semicolon] using ih
    | statement statement others ih =>
        obtain ⟨first, behind, rfl, opens⟩ := statement.opens
        have noBrace : first.kind ≠ .rightBrace := ne_of_opensOperand opens rfl
        have noSemicolon : first.kind ≠ .semicolon := ne_of_opensOperand opens rfl
        rw [readBody, if_neg noBrace, if_neg noSemicolon, accepts_relax, accepts_andMaybe]
        exact ⟨_, _, accepts_readStatement.mpr statement, accepts_map.mpr ⟨_, ih, rfl⟩⟩

/-! ## Members -/

/-- The visibility that a word in front of a body states; without a word it is public. -/
inductive StatesVisibility : List Lexeme → Visibility → Prop where
  | word {word : Lexeme} {visibility : Visibility} :
      word.kind = .identifier →
        Visibility.ofWord? word.literal = some visibility →
        StatesVisibility [word] visibility
  | silent : StatesVisibility [] .pub

inductive ReadsFunction : List Lexeme → ContractFunction → List Lexeme → Prop where
  | intro {name opening closing brace : Lexeme} {words inside rest : List Lexeme}
      {visibility : Visibility} {body : List Expression} :
      name.kind = .identifier →
        opening.kind = .leftParen →
        closing.kind = .rightParen →
        StatesVisibility words visibility →
        brace.kind = .leftBrace →
        ReadsBody inside body rest →
        ReadsFunction (name :: opening :: closing :: (words ++ brace :: inside))
          ⟨nameOf name, visibility, body⟩ rest

inductive ReadsVariable (type : Ident) : List Lexeme → StateVariable → List Lexeme → Prop where
  | intro {assign stop : Lexeme} {lexemes inside rest : List Lexeme} {header : Header}
      {value : Expression} :
      (readHeader type.name none false lexemes).Accepts header (assign :: inside) →
        assign.kind = .assign →
        Reads .expression inside [value] (stop :: rest) →
        stop.kind = .semicolon →
        ReadsVariable type lexemes
          ⟨type, header.visibility, header.isConstant, header.name, value⟩ rest

theorem accepts_readVariable {type : Ident} {lexemes rest : List Lexeme}
    {declaration : StateVariable} :
    (readVariable type lexemes).Accepts declaration rest ↔
      ReadsVariable type lexemes declaration rest := by
  simp only [readVariable, accepts_andThen, accepts_map, accepts_accept, accepts_readExpression]
  constructor
  · rintro ⟨header, _, first, assign, inside, ⟨rfl, same⟩, value, _, second, stop,
      ⟨rfl, semicolon⟩, rfl⟩
    exact .intro first same second semicolon
  · rintro ⟨first, same, value, semicolon⟩
    exact ⟨_, _, first, _, _, ⟨rfl, same⟩, _, _, value, _, ⟨rfl, semicolon⟩, rfl⟩

/-- A word is read as a visibility exactly if it states one in front of the brace. -/
theorem accepts_readVisibility {brace : Lexeme} {lexemes inside : List Lexeme}
    {visibility : Visibility} (opens : brace.kind = .leftBrace) :
    (readVisibility lexemes).Accepts visibility (brace :: inside) ↔
      ∃ words, lexemes = words ++ brace :: inside ∧ StatesVisibility words visibility := by
  constructor
  · intro accepts
    cases lexemes with
    | nil => simp [readVisibility] at accepts
    | cons word behind =>
        rw [readVisibility] at accepts
        split at accepts
        · next stated some =>
            simp only [accepts_relax, accepts_take] at accepts
            obtain ⟨rfl, rfl⟩ := accepts
            split at some
            · next identifier => exact ⟨[word], rfl, .word identifier some⟩
            · cases some
        · simp only [accepts_stay, List.cons.injEq] at accepts
          obtain ⟨rfl, rfl, rfl⟩ := accepts
          exact ⟨[], rfl, .silent⟩
  · rintro ⟨words, rfl, states⟩
    cases states with
    | word identifier stated => simp [readVisibility, identifier, stated]
    | silent => simp [readVisibility, opens]

/-- The lexemes of a function from its name on; the word `constructor` is a name itself. -/
def fromName (keyword : Lexeme) (lexemes : List Lexeme) : List Lexeme :=
  if isWord "constructor" keyword then keyword :: lexemes else lexemes

/-- The name of a function is the next identifier, or the word `constructor` itself. -/
theorem accepts_readFunctionName {keyword : Lexeme} {lexemes rest : List Lexeme} {name : Ident}
    (word : keyword.kind = .identifier) :
    (readFunctionName keyword lexemes).Accepts name rest ↔
      ∃ lexeme, fromName keyword lexemes = lexeme :: rest ∧ lexeme.kind = .identifier ∧
        nameOf lexeme = name := by
  by_cases isConstructor : isWord "constructor" keyword
  · simp only [readFunctionName, fromName, if_pos isConstructor, accepts_stay, List.cons.injEq]
    constructor
    · rintro ⟨rfl, rfl⟩
      exact ⟨keyword, ⟨rfl, rfl⟩, word, rfl⟩
    · rintro ⟨_, ⟨rfl, rfl⟩, _, rfl⟩
      exact ⟨rfl, rfl⟩
  · simp [readFunctionName, fromName, isConstructor]

theorem accepts_readFunction {keyword : Lexeme} {lexemes rest : List Lexeme}
    {function : ContractFunction} (word : keyword.kind = .identifier) :
    (readFunction keyword lexemes).Accepts function rest ↔
      ReadsFunction (fromName keyword lexemes) function rest := by
  simp only [readFunction, accepts_andThen, accepts_andMaybe, accepts_map, accepts_accept,
    accepts_readFunctionName word]
  constructor
  · rintro ⟨_, _, ⟨name, whole, identifier, rfl⟩, opening, _, ⟨rfl, opens⟩, closing, _,
      ⟨rfl, closes⟩, visibility, _, second, brace, inside, ⟨rfl, braces⟩, body, third, rfl⟩
    obtain ⟨words, rfl, states⟩ := (accepts_readVisibility braces).mp second
    rw [whole]
    exact .intro identifier opens closes states braces (accepts_readBody.mp third)
  · intro reads
    generalize shape : fromName keyword lexemes = whole at reads ⊢
    cases reads with
    | intro identifier opens closes states braces body =>
        exact ⟨_, _, ⟨_, rfl, identifier, rfl⟩, _, _, ⟨rfl, opens⟩, _, _, ⟨rfl, closes⟩, _, _,
          (accepts_readVisibility braces).mpr ⟨_, rfl, states⟩, _, _, ⟨rfl, braces⟩, _,
          accepts_readBody.mpr body, rfl⟩

end ContractLens.Grammar
