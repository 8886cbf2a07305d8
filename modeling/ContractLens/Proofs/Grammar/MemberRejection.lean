import ContractLens.Proofs.Grammar.MemberDerivation
import ContractLens.Proofs.Grammar.Rejection

/-!
# Refused members

The ways in which statements, bodies, functions and state variables can be
refused, as relations over the rejections of expressions.  Their readers refuse
exactly what these relations say.
-/

namespace ContractLens.Grammar

open Outcome

/-! ## Bodies -/

inductive RejectsStatement : List Lexeme → Cause → List Lexeme → Prop where
  | inExpression {lexemes rest : List Lexeme} {cause : Cause} :
      Rejects .expression lexemes cause rest → RejectsStatement lexemes cause rest
  | noStop {lexemes rest : List Lexeme} {expression : Expression} :
      Reads .expression lexemes [expression] rest →
        endsStatement rest = true →
        Lacks .semicolon rest →
        RejectsStatement lexemes (.expected .semicolon) rest
  | behindExpression {lexemes middle rest : List Lexeme} {first : Expression} {cause : Cause} :
      Reads .expression lexemes [first] middle →
        endsStatement middle = false →
        RejectsStatement middle cause rest →
        RejectsStatement lexemes cause rest

/-- Why and where a body is refused: always in one of its statements. -/
inductive RejectsBody : List Lexeme → Cause → List Lexeme → Prop where
  | behindStop {stop : Lexeme} {lexemes rest : List Lexeme} {cause : Cause} :
      stop.kind = .semicolon →
        RejectsBody lexemes cause rest →
        RejectsBody (stop :: lexemes) cause rest
  | inStatement {first : Lexeme} {behind rest : List Lexeme} {cause : Cause} :
      first.kind ≠ .rightBrace →
        first.kind ≠ .semicolon →
        RejectsStatement (first :: behind) cause rest →
        RejectsBody (first :: behind) cause rest
  | behindStatement {lexemes middle rest : List Lexeme} {statement : List Expression}
      {cause : Cause} :
      ReadsStatement lexemes statement middle →
        RejectsBody middle cause rest →
        RejectsBody lexemes cause rest

theorem refuses_readStatement {lexemes rest : List Lexeme} {cause : Cause} :
    (readStatement lexemes).Refuses cause rest ↔ RejectsStatement lexemes cause rest := by
  constructor
  · intro refuses
    induction lexemes using readStatement.induct generalizing rest with
    | case1 lexemes ih =>
        rw [readStatement, refuses_andThen] at refuses
        rcases refuses with first | ⟨first, middle, expression, refuses⟩
        · exact .inExpression (refuses_readExpression.mp first)
        have reads := accepts_readExpression.mp expression
        split at refuses
        · next ends =>
            simp only [refuses_map, refuses_accept] at refuses
            obtain ⟨rfl, rfl, lacks⟩ := refuses
            exact .noStop reads ends lacks
        · next goesOn =>
            exact .behindExpression reads (by simpa using goesOn)
              (ih middle expression.shorter (refuses_map.mp refuses))
  · intro rejects
    induction rejects with
    | inExpression expression =>
        rw [readStatement, refuses_andThen]
        exact .inl (refuses_readExpression.mpr expression)
    | noStop expression ends lacks =>
        rw [readStatement, refuses_andThen]
        refine .inr ⟨_, _, accepts_readExpression.mpr expression, ?_⟩
        simpa [ends] using lacks
    | behindExpression expression goesOn _ ih =>
        rw [readStatement, refuses_andThen]
        refine .inr ⟨_, _, accepts_readExpression.mpr expression, ?_⟩
        simpa [goesOn] using ih

theorem refuses_readBody {lexemes rest : List Lexeme} {cause : Cause} :
    (readBody lexemes).Refuses cause rest ↔ RejectsBody lexemes cause rest := by
  constructor
  · intro refuses
    induction lexemes using readBody.induct generalizing rest with
    | case1 =>
        rw [readBody] at refuses
        exact absurd refuses not_refuses_stay
    | case2 closing behind brace =>
        rw [readBody, if_pos brace, refuses_relax] at refuses
        exact absurd refuses not_refuses_take
    | case3 stop behind noBrace semicolon ih =>
        rw [readBody, if_neg noBrace, if_pos semicolon, refuses_relax] at refuses
        exact .behindStop semicolon (ih refuses)
    | case4 first behind noBrace noSemicolon ih =>
        rw [readBody, if_neg noBrace, if_neg noSemicolon, refuses_relax, refuses_andMaybe]
          at refuses
        rcases refuses with first | ⟨statement, middle, first, refuses⟩
        · exact .inStatement noBrace noSemicolon (refuses_readStatement.mp first)
        · exact .behindStatement (accepts_readStatement.mp first)
            (ih middle first.shorter (refuses_map.mp refuses))
  · intro rejects
    induction rejects with
    | behindStop semicolon _ ih => simpa [readBody, semicolon] using ih
    | inStatement noBrace noSemicolon statement =>
        rw [readBody, if_neg noBrace, if_neg noSemicolon, refuses_relax, refuses_andMaybe]
        exact .inl (refuses_readStatement.mpr statement)
    | behindStatement statement _ ih =>
        obtain ⟨first, behind, rfl, opens⟩ := statement.opens
        have noBrace : first.kind ≠ .rightBrace := ne_of_opensOperand opens rfl
        have noSemicolon : first.kind ≠ .semicolon := ne_of_opensOperand opens rfl
        rw [readBody, if_neg noBrace, if_neg noSemicolon, refuses_relax, refuses_andMaybe]
        exact .inr ⟨_, _, accepts_readStatement.mpr statement, refuses_map.mpr ih⟩

/-! ## Functions -/

/-- No visibility word and brace come next, in this order. -/
inductive RejectsBrace : List Lexeme → List Lexeme → Prop where
  | behindWord {word : Lexeme} {rest : List Lexeme} {visibility : Visibility} :
      word.kind = .identifier →
        Visibility.ofWord? word.literal = some visibility →
        Lacks .leftBrace rest →
        RejectsBrace (word :: rest) rest
  | noWord {rest : List Lexeme} :
      (∀ next ∈ rest.head?, next.kind = .identifier → Visibility.ofWord? next.literal = none) →
        Lacks .leftBrace rest →
        RejectsBrace rest rest

inductive RejectsFunction : List Lexeme → Cause → List Lexeme → Prop where
  | noName {rest : List Lexeme} :
      Lacks .identifier rest → RejectsFunction rest (.expected .identifier) rest
  | noOpening {name : Lexeme} {rest : List Lexeme} :
      name.kind = .identifier →
        Lacks .leftParen rest →
        RejectsFunction (name :: rest) (.expected .leftParen) rest
  | noClosing {name opening : Lexeme} {rest : List Lexeme} :
      name.kind = .identifier →
        opening.kind = .leftParen →
        Lacks .rightParen rest →
        RejectsFunction (name :: opening :: rest) (.expected .rightParen) rest
  | noBrace {name opening closing : Lexeme} {lexemes rest : List Lexeme} :
      name.kind = .identifier →
        opening.kind = .leftParen →
        closing.kind = .rightParen →
        RejectsBrace lexemes rest →
        RejectsFunction (name :: opening :: closing :: lexemes) (.expected .leftBrace) rest
  | inBody {name opening closing brace : Lexeme} {words inside rest : List Lexeme}
      {visibility : Visibility} {cause : Cause} :
      name.kind = .identifier →
        opening.kind = .leftParen →
        closing.kind = .rightParen →
        StatesVisibility words visibility →
        brace.kind = .leftBrace →
        RejectsBody inside cause rest →
        RejectsFunction (name :: opening :: closing :: (words ++ brace :: inside)) cause rest

theorem not_refuses_readVisibility {lexemes rest : List Lexeme} {cause : Cause} :
    ¬ (readVisibility lexemes).Refuses cause rest := by
  cases lexemes with
  | nil => exact not_refuses_stay
  | cons first behind =>
      rw [readVisibility]
      split
      · exact fun refuses => not_refuses_take (refuses_relax.mp refuses)
      · exact not_refuses_stay

/-- No brace stands behind the visibility that is read exactly if none is to be had. -/
theorem rejectsBrace_iff {lexemes rest : List Lexeme} :
    RejectsBrace lexemes rest ↔
      ∃ visibility, (readVisibility lexemes).Accepts visibility rest ∧ Lacks .leftBrace rest := by
  constructor
  · intro rejects
    cases rejects with
    | @behindWord _ _ visibility identifier stated lacks =>
        exact ⟨visibility, by simp [readVisibility, identifier, stated], lacks⟩
    | noWord silent lacks =>
        refine ⟨.pub, ?_, lacks⟩
        cases lexemes with
        | nil => simp [readVisibility]
        | cons first behind =>
            by_cases identifier : first.kind = .identifier
            · simp [readVisibility, identifier, silent first rfl identifier]
            · simp [readVisibility, identifier]
  · rintro ⟨visibility, accepts, lacks⟩
    cases lexemes with
    | nil =>
        obtain ⟨rfl, rfl⟩ := accepts_stay.mp accepts
        exact .noWord (by simp) lacks
    | cons first behind =>
        rw [readVisibility] at accepts
        split at accepts
        · next stated some =>
            simp only [accepts_relax, accepts_take] at accepts
            obtain ⟨rfl, rfl⟩ := accepts
            split at some
            · next identifier => exact .behindWord identifier some lacks
            · cases some
        · next none =>
            obtain ⟨rfl, rfl⟩ := accepts_stay.mp accepts
            exact .noWord (by simpa using none) lacks

theorem refuses_readFunctionName {keyword : Lexeme} {lexemes rest : List Lexeme} {cause : Cause}
    (word : keyword.kind = .identifier) :
    (readFunctionName keyword lexemes).Refuses cause rest ↔
      cause = .expected .identifier ∧ rest = fromName keyword lexemes ∧
        Lacks .identifier (fromName keyword lexemes) := by
  by_cases isConstructor : isWord "constructor" keyword
  · simp [readFunctionName, fromName, isConstructor, word]
  · simp [readFunctionName, fromName, isConstructor]

theorem refuses_readFunction {keyword : Lexeme} {lexemes rest : List Lexeme} {cause : Cause}
    (word : keyword.kind = .identifier) :
    (readFunction keyword lexemes).Refuses cause rest ↔
      RejectsFunction (fromName keyword lexemes) cause rest := by
  simp only [readFunction, refuses_andThen, refuses_andMaybe, refuses_map, refuses_accept,
    refuses_readFunctionName word, accepts_accept, accepts_readFunctionName word,
    not_refuses_readVisibility, refuses_readBody, false_or]
  generalize fromName keyword lexemes = whole
  constructor
  · rintro (⟨rfl, rfl, lacks⟩ | ⟨_, _, ⟨name, rfl, identifier, rfl⟩, behindName⟩)
    · exact .noName lacks
    rcases behindName with ⟨rfl, rfl, lacks⟩ | ⟨opening, _, ⟨rfl, opens⟩, behindOpening⟩
    · exact .noOpening identifier lacks
    rcases behindOpening with ⟨rfl, rfl, lacks⟩ | ⟨closing, _, ⟨rfl, closes⟩, behindClosing⟩
    · exact .noClosing identifier opens lacks
    obtain ⟨visibility, middle, states, behindWord⟩ := behindClosing
    rcases behindWord with ⟨rfl, rfl, lacks⟩ | ⟨brace, inside, ⟨rfl, braces⟩, body⟩
    · exact .noBrace identifier opens closes (rejectsBrace_iff.mpr ⟨_, states, lacks⟩)
    · obtain ⟨words, rfl, stated⟩ := (accepts_readVisibility braces).mp states
      exact .inBody identifier opens closes stated braces body
  · intro rejects
    cases rejects with
    | noName lacks => exact .inl ⟨rfl, rfl, lacks⟩
    | noOpening identifier lacks =>
        exact .inr ⟨_, _, ⟨_, rfl, identifier, rfl⟩, .inl ⟨rfl, rfl, lacks⟩⟩
    | noClosing identifier opens lacks =>
        exact .inr ⟨_, _, ⟨_, rfl, identifier, rfl⟩, .inr ⟨_, _, ⟨rfl, opens⟩,
          .inl ⟨rfl, rfl, lacks⟩⟩⟩
    | noBrace identifier opens closes brace =>
        obtain ⟨visibility, states, lacks⟩ := rejectsBrace_iff.mp brace
        exact .inr ⟨_, _, ⟨_, rfl, identifier, rfl⟩, .inr ⟨_, _, ⟨rfl, opens⟩,
          .inr ⟨_, _, ⟨rfl, closes⟩, visibility, _, states, .inl ⟨rfl, rfl, lacks⟩⟩⟩⟩
    | inBody identifier opens closes states braces body =>
        exact .inr ⟨_, _, ⟨_, rfl, identifier, rfl⟩, .inr ⟨_, _, ⟨rfl, opens⟩,
          .inr ⟨_, _, ⟨rfl, closes⟩, _, _,
            (accepts_readVisibility braces).mpr ⟨_, rfl, states⟩,
            .inr ⟨_, _, ⟨rfl, braces⟩, body⟩⟩⟩⟩

/-! ## State variables -/

/-- The lexeme is the name of a state variable: a word that says nothing else in front of it. -/
def namesVariable (lexeme : Lexeme) : Bool :=
  lexeme.kind = .identifier && lexeme.literal != "constant" &&
    (Visibility.ofWord? lexeme.literal).isNone

/-- The visibility that is known behind a lexeme of a header. -/
def visibilityBehind (lexeme : Lexeme) (visibility : Option Visibility) : Option Visibility :=
  if lexeme.kind = .identifier then
    (Visibility.ofWord? lexeme.literal).or visibility
  else
    visibility

section

variable {type : String} {visibility : Option Visibility} {isConstant : Bool}
  {lexeme : Lexeme} {lexemes rest : List Lexeme} {cause : Cause}

theorem readHeader_of_names (names : namesVariable lexeme = true) :
    readHeader type visibility isConstant (lexeme :: lexemes) =
      .take ⟨visibility, isConstant, nameOf lexeme⟩ lexeme lexemes := by
  simp only [namesVariable, Bool.and_eq_true, decide_eq_true_eq, bne_iff_ne,
    Option.isNone_iff_eq_none] at names
  obtain ⟨⟨identifier, notConstant⟩, noVisibility⟩ := names
  simp [readHeader, identifier, notConstant, noVisibility]

theorem readHeader_of_not_names (other : namesVariable lexeme = false) :
    readHeader type visibility isConstant (lexeme :: lexemes) =
      (readHeader type (visibilityBehind lexeme visibility)
        (isConstant || isWord "constant" lexeme) lexemes).relax := by
  rw [readHeader]
  by_cases identifier : lexeme.kind = .identifier
  · by_cases constant : lexeme.literal = "constant"
    · simp [identifier, constant, isWord, visibilityBehind, Visibility.ofWord?]
    · have notConstant : (lexeme.literal == "constant") = false := by simpa using constant
      cases stated : Visibility.ofWord? lexeme.literal with
      | none => simp [namesVariable, identifier, constant, stated] at other
      | some word =>
          simp [identifier, constant, notConstant, stated, isWord, visibilityBehind]
  · simp [identifier, isWord, visibilityBehind]

/-- A header is refused at the end of the input, if no name is there. -/
theorem refuses_readHeader :
    (readHeader type visibility isConstant lexemes).Refuses cause rest ↔
      cause = .unterminatedDeclaration type ∧ rest = [] ∧
        ∀ lexeme ∈ lexemes, namesVariable lexeme = false := by
  induction lexemes generalizing visibility isConstant with
  | nil => simp [readHeader, eq_comm (b := cause), eq_comm (b := rest)]
  | cons first behind ih =>
      cases names : namesVariable first with
      | true => simp [readHeader_of_names names, names]
      | false => simp [readHeader_of_not_names names, ih, names]

end

inductive RejectsVariable (type : Ident) : List Lexeme → Cause → List Lexeme → Prop where
  | unterminated {lexemes : List Lexeme} :
      (∀ lexeme ∈ lexemes, namesVariable lexeme = false) →
        RejectsVariable type lexemes (.unterminatedDeclaration type.name) []
  | noAssign {lexemes rest : List Lexeme} {header : Header} :
      (readHeader type.name none false lexemes).Accepts header rest →
        Lacks .assign rest →
        RejectsVariable type lexemes (.expected .assign) rest
  | inValue {assign : Lexeme} {lexemes inside rest : List Lexeme} {header : Header}
      {cause : Cause} :
      (readHeader type.name none false lexemes).Accepts header (assign :: inside) →
        assign.kind = .assign →
        Rejects .expression inside cause rest →
        RejectsVariable type lexemes cause rest
  | noStop {assign : Lexeme} {lexemes inside rest : List Lexeme} {header : Header}
      {value : Expression} :
      (readHeader type.name none false lexemes).Accepts header (assign :: inside) →
        assign.kind = .assign →
        Reads .expression inside [value] rest →
        Lacks .semicolon rest →
        RejectsVariable type lexemes (.expected .semicolon) rest

theorem refuses_readVariable {type : Ident} {lexemes rest : List Lexeme} {cause : Cause} :
    (readVariable type lexemes).Refuses cause rest ↔ RejectsVariable type lexemes cause rest := by
  simp only [readVariable, refuses_andThen, refuses_map, refuses_accept, accepts_accept,
    refuses_readHeader, refuses_readExpression, accepts_readExpression]
  constructor
  · rintro (⟨rfl, rfl, noName⟩ | ⟨header, _, first, behindHeader⟩)
    · exact .unterminated noName
    rcases behindHeader with ⟨rfl, rfl, lacks⟩ | ⟨assign, inside, ⟨rfl, same⟩, behindAssign⟩
    · exact .noAssign first lacks
    rcases behindAssign with value | ⟨value, _, second, rfl, rfl, lacks⟩
    · exact .inValue first same value
    · exact .noStop first same second lacks
  · intro rejects
    cases rejects with
    | unterminated noName => exact .inl ⟨rfl, rfl, noName⟩
    | noAssign header lacks => exact .inr ⟨_, _, header, .inl ⟨rfl, rfl, lacks⟩⟩
    | inValue header same value =>
        exact .inr ⟨_, _, header, .inr ⟨_, _, ⟨rfl, same⟩, .inl value⟩⟩
    | noStop header same value lacks =>
        exact .inr ⟨_, _, header, .inr ⟨_, _, ⟨rfl, same⟩, .inr ⟨_, _, value, rfl, rfl, lacks⟩⟩⟩

end ContractLens.Grammar
