import ContractLens.Proofs.Grammar.MemberRejection
import ContractLens.Proofs.Grammar.ProgramDerivation

/-!
# Refused programs

The ways in which contracts and whole programs can be refused, as relations over
the rejections of members.  A text is refused exactly if its lexemes are rejected,
and the error names the cause and the token in front of which they are.
-/

namespace ContractLens

namespace Grammar

open Outcome

/-! ## Contracts -/

/-- Where names with commas between them are refused: a name is missing. -/
inductive RejectsBases : List Lexeme → List Lexeme → Prop where
  | noName {rest : List Lexeme} : Lacks .identifier rest → RejectsBases rest rest
  | behindComma {name comma : Lexeme} {lexemes rest : List Lexeme} :
      name.kind = .identifier →
        comma.kind = .comma →
        RejectsBases lexemes rest →
        RejectsBases (name :: comma :: lexemes) rest

inductive RejectsMembers : List Lexeme → Cause → List Lexeme → Prop where
  | inFunction {keyword : Lexeme} {lexemes rest : List Lexeme} {cause : Cause} :
      (isWord "constructor" keyword || isWord "function" keyword) = true →
        RejectsFunction (fromName keyword lexemes) cause rest →
        RejectsMembers (keyword :: lexemes) cause rest
  | behindFunction {keyword : Lexeme} {lexemes middle rest : List Lexeme}
      {function : ContractFunction} {cause : Cause} :
      (isWord "constructor" keyword || isWord "function" keyword) = true →
        ReadsFunction (fromName keyword lexemes) function middle →
        RejectsMembers middle cause rest →
        RejectsMembers (keyword :: lexemes) cause rest
  | inVariable {type : Lexeme} {lexemes rest : List Lexeme} {cause : Cause} :
      type.kind = .identifier →
        (isWord "constructor" type || isWord "function" type) = false →
        RejectsVariable (nameOf type) lexemes cause rest →
        RejectsMembers (type :: lexemes) cause rest
  | behindVariable {type : Lexeme} {lexemes middle rest : List Lexeme}
      {declaration : StateVariable} {cause : Cause} :
      type.kind = .identifier →
        (isWord "constructor" type || isWord "function" type) = false →
        ReadsVariable (nameOf type) lexemes declaration middle →
        RejectsMembers middle cause rest →
        RejectsMembers (type :: lexemes) cause rest
  | behindStray {lexeme : Lexeme} {lexemes rest : List Lexeme} {cause : Cause} :
      lexeme.kind ≠ .rightBrace →
        lexeme.kind ≠ .identifier →
        RejectsMembers lexemes cause rest →
        RejectsMembers (lexeme :: lexemes) cause rest

theorem RejectsMembers.ne_nil {lexemes rest : List Lexeme} {cause : Cause}
    (rejects : RejectsMembers lexemes cause rest) : lexemes ≠ [] := by
  rintro rfl
  cases rejects

inductive RejectsContract : List Lexeme → Cause → List Lexeme → Prop where
  | noName {rest : List Lexeme} :
      Lacks .identifier rest → RejectsContract rest (.expected .identifier) rest
  | inBases {name keyword : Lexeme} {lexemes rest : List Lexeme} :
      name.kind = .identifier →
        isWord "is" keyword = true →
        RejectsBases lexemes rest →
        RejectsContract (name :: keyword :: lexemes) (.expected .identifier) rest
  | noBrace {name : Lexeme} {lexemes rest : List Lexeme} {bases : List Ident} :
      name.kind = .identifier →
        ReadsInheritance lexemes bases rest →
        Lacks .leftBrace rest →
        RejectsContract (name :: lexemes) (.expected .leftBrace) rest
  | inMembers {name brace : Lexeme} {lexemes inside rest : List Lexeme} {bases : List Ident}
      {cause : Cause} :
      name.kind = .identifier →
        ReadsInheritance lexemes bases (brace :: inside) →
        brace.kind = .leftBrace →
        RejectsMembers inside cause rest →
        RejectsContract (name :: lexemes) cause rest

theorem refuses_readBases {lexemes rest : List Lexeme} {cause : Cause} :
    (readBases lexemes).Refuses cause rest ↔
      cause = .expected .identifier ∧ RejectsBases lexemes rest := by
  constructor
  · intro refuses
    induction lexemes using readBases.induct generalizing rest with
    | case1 lexemes ih =>
        rw [readBases, refuses_andMaybe] at refuses
        rcases refuses with first | ⟨_, middle, first, refuses⟩
        · obtain ⟨rfl, rfl, lacks⟩ := refuses_acceptName.mp first
          exact ⟨rfl, .noName lacks⟩
        have shorter := first.shorter
        obtain ⟨name, rfl, identifier, rfl⟩ := accepts_acceptName.mp first
        cases middle with
        | nil => exact absurd refuses not_refuses_stay
        | cons next behind =>
            dsimp only at refuses
            split at refuses
            · next comma =>
                simp only [refuses_relax, refuses_map] at refuses
                obtain ⟨rfl, rejects⟩ := ih [] next behind shorter refuses
                exact ⟨rfl, .behindComma identifier comma rejects⟩
            · exact absurd refuses not_refuses_stay
  · rintro ⟨rfl, rejects⟩
    induction rejects with
    | noName lacks =>
        rw [readBases, refuses_andMaybe]
        exact .inl (refuses_acceptName.mpr ⟨rfl, rfl, lacks⟩)
    | behindComma identifier comma _ ih =>
        rw [readBases, refuses_andMaybe]
        refine .inr ⟨_, _, accepts_acceptName.mpr ⟨_, rfl, identifier, rfl⟩, ?_⟩
        simpa [comma] using ih

theorem refuses_readInheritance {lexemes rest : List Lexeme} {cause : Cause} :
    (readInheritance lexemes).Refuses cause rest ↔
      cause = .expected .identifier ∧
        ∃ keyword behind, lexemes = keyword :: behind ∧ isWord "is" keyword = true ∧
          RejectsBases behind rest := by
  cases lexemes with
  | nil => simp [readInheritance]
  | cons first behind =>
      rw [readInheritance]
      split
      · next keyword =>
          simp only [refuses_relax, refuses_readBases]
          constructor
          · rintro ⟨rfl, rejects⟩
            exact ⟨rfl, first, behind, rfl, keyword, rejects⟩
          · rintro ⟨rfl, _, _, ⟨rfl, rfl⟩, _, rejects⟩
            exact ⟨rfl, rejects⟩
      · next noKeyword =>
          constructor
          · intro refuses
            exact absurd refuses not_refuses_stay
          · rintro ⟨_, _, _, ⟨rfl, rfl⟩, keyword, _⟩
            exact absurd keyword noKeyword

theorem refuses_readMembers {lexemes rest : List Lexeme} {cause : Cause} :
    (readMembers lexemes).Refuses cause rest ↔ RejectsMembers lexemes cause rest := by
  constructor
  · intro refuses
    induction lexemes using readMembers.induct generalizing rest with
    | case1 =>
        rw [readMembers] at refuses
        exact absurd refuses not_refuses_stay
    | case2 closing behind brace =>
        rw [readMembers, if_pos brace, refuses_relax] at refuses
        exact absurd refuses not_refuses_take
    | case3 keyword behind noBrace announces ih =>
        rw [readMembers, if_neg noBrace, if_pos announces, refuses_relax, refuses_andMaybe]
          at refuses
        have identifier := kind_of_announces announces
        rcases refuses with first | ⟨function, middle, first, refuses⟩
        · exact .inFunction announces ((refuses_readFunction identifier).mp first)
        · exact .behindFunction announces ((accepts_readFunction identifier).mp first)
            (ih middle first.shorter (refuses_map.mp refuses))
    | case4 type behind noBrace announcesNone identifier ih =>
        rw [readMembers, if_neg noBrace, if_neg announcesNone, if_pos identifier, refuses_relax,
          refuses_relax, refuses_andMaybe] at refuses
        have noFunction := Bool.eq_false_iff.mpr announcesNone
        rcases refuses with first | ⟨declaration, middle, first, refuses⟩
        · exact .inVariable identifier noFunction (refuses_readVariable.mp first)
        · exact .behindVariable identifier noFunction (accepts_readVariable.mp first)
            (ih middle first.shorter (refuses_map.mp refuses))
    | case5 lexeme behind noBrace announcesNone noIdentifier ih =>
        rw [readMembers, if_neg noBrace, if_neg announcesNone, if_neg noIdentifier,
          refuses_relax] at refuses
        exact .behindStray noBrace noIdentifier (ih refuses)
  · intro rejects
    induction rejects with
    | inFunction announces function =>
        have identifier := kind_of_announces announces
        rw [readMembers, if_neg (by simp [identifier]), if_pos announces, refuses_relax,
          refuses_andMaybe]
        exact .inl ((refuses_readFunction identifier).mpr function)
    | behindFunction announces function _ ih =>
        have identifier := kind_of_announces announces
        rw [readMembers, if_neg (by simp [identifier]), if_pos announces, refuses_relax,
          refuses_andMaybe]
        exact .inr ⟨_, _, (accepts_readFunction identifier).mpr function, refuses_map.mpr ih⟩
    | inVariable identifier announcesNone declaration =>
        rw [readMembers, if_neg (by simp [identifier]), if_neg (by simp [announcesNone]),
          if_pos identifier, refuses_relax, refuses_relax, refuses_andMaybe]
        exact .inl (refuses_readVariable.mpr declaration)
    | behindVariable identifier announcesNone declaration _ ih =>
        rw [readMembers, if_neg (by simp [identifier]), if_neg (by simp [announcesNone]),
          if_pos identifier, refuses_relax, refuses_relax, refuses_andMaybe]
        exact .inr ⟨_, _, accepts_readVariable.mpr declaration, refuses_map.mpr ih⟩
    | behindStray noBrace noIdentifier _ ih =>
        rw [readMembers, if_neg noBrace, if_neg (by simp [isWord, noIdentifier]),
          if_neg noIdentifier, refuses_relax]
        exact ih

theorem refuses_readContract {lexemes rest : List Lexeme} {cause : Cause} :
    (readContract lexemes).Refuses cause rest ↔ RejectsContract lexemes cause rest := by
  simp only [readContract, refuses_andThen, refuses_andMaybe, refuses_map, refuses_accept,
    refuses_acceptName, refuses_readInheritance, refuses_readMembers, accepts_accept,
    accepts_acceptName, accepts_readInheritance]
  constructor
  · rintro (⟨rfl, rfl, lacks⟩ | ⟨_, _, ⟨name, rfl, identifier, rfl⟩, behindName⟩)
    · exact .noName lacks
    rcases behindName with ⟨rfl, keyword, behind, rfl, isKeyword, rejects⟩ |
      ⟨bases, _, inherits, behindBases⟩
    · exact .inBases identifier isKeyword rejects
    rcases behindBases with ⟨rfl, rfl, lacks⟩ | ⟨brace, inside, ⟨rfl, opens⟩, members⟩
    · exact .noBrace identifier inherits lacks
    · exact .inMembers identifier inherits opens members
  · intro rejects
    cases rejects with
    | noName lacks => exact .inl ⟨rfl, rfl, lacks⟩
    | inBases identifier keyword bases =>
        exact .inr ⟨_, _, ⟨_, rfl, identifier, rfl⟩, .inl ⟨rfl, _, _, rfl, keyword, bases⟩⟩
    | noBrace identifier inherits lacks =>
        exact .inr ⟨_, _, ⟨_, rfl, identifier, rfl⟩, .inr ⟨_, _, inherits,
          .inl ⟨rfl, rfl, lacks⟩⟩⟩
    | inMembers identifier inherits opens members =>
        exact .inr ⟨_, _, ⟨_, rfl, identifier, rfl⟩, .inr ⟨_, _, inherits,
          .inr ⟨_, _, ⟨rfl, opens⟩, members⟩⟩⟩

/-! ## Programs -/

inductive RejectsPragma : List Lexeme → Cause → List Lexeme → Prop where
  | noName {rest : List Lexeme} :
      Lacks .identifier rest → RejectsPragma rest (.expected .identifier) rest
  | unterminated {name : Lexeme} {values : List Lexeme} :
      name.kind = .identifier →
        (∀ value ∈ values, value.kind ≠ .semicolon) →
        RejectsPragma (name :: values) (.unterminatedPragma name.literal) []

inductive RejectsItems : List Lexeme → Cause → List Lexeme → Prop where
  | inPragma {keyword : Lexeme} {lexemes rest : List Lexeme} {cause : Cause} :
      isWord "pragma" keyword = true →
        RejectsPragma lexemes cause rest →
        RejectsItems (keyword :: lexemes) cause rest
  | behindPragma {keyword : Lexeme} {lexemes middle rest : List Lexeme} {pragma : Pragma}
      {cause : Cause} :
      isWord "pragma" keyword = true →
        ReadsPragma lexemes pragma middle →
        RejectsItems middle cause rest →
        RejectsItems (keyword :: lexemes) cause rest
  | noPath {keyword : Lexeme} :
      isWord "import" keyword = true → RejectsItems [keyword] .expectedImportPath []
  | behindImport {keyword path : Lexeme} {lexemes rest : List Lexeme} {cause : Cause} :
      isWord "import" keyword = true →
        RejectsItems lexemes cause rest →
        RejectsItems (keyword :: path :: lexemes) cause rest
  | inContract {keyword : Lexeme} {lexemes rest : List Lexeme} {cause : Cause} :
      isWord "contract" keyword = true →
        RejectsContract lexemes cause rest →
        RejectsItems (keyword :: lexemes) cause rest
  | behindContract {keyword : Lexeme} {lexemes middle rest : List Lexeme} {contract : Contract}
      {cause : Cause} :
      isWord "contract" keyword = true →
        ReadsContract lexemes contract middle →
        RejectsItems middle cause rest →
        RejectsItems (keyword :: lexemes) cause rest
  | behindStray {lexeme : Lexeme} {lexemes rest : List Lexeme} {cause : Cause} :
      isWord "pragma" lexeme = false →
        isWord "import" lexeme = false →
        isWord "contract" lexeme = false →
        RejectsItems lexemes cause rest →
        RejectsItems (lexeme :: lexemes) cause rest

theorem RejectsItems.ne_nil {lexemes rest : List Lexeme} {cause : Cause}
    (rejects : RejectsItems lexemes cause rest) : lexemes ≠ [] := by
  rintro rfl
  cases rejects

/-- The value of a pragma is refused at the end of the input, if no semicolon is there. -/
theorem refuses_readPragmaValue {name : String} {lexemes rest : List Lexeme} {cause : Cause} :
    (readPragmaValue name lexemes).Refuses cause rest ↔
      cause = .unterminatedPragma name ∧ rest = [] ∧
        ∀ value ∈ lexemes, value.kind ≠ .semicolon := by
  induction lexemes with
  | nil => simp [readPragmaValue, eq_comm]
  | cons first behind ih =>
      rw [readPragmaValue]
      split
      · next semicolon => simp [semicolon]
      · next goesOn => simp [ih, goesOn]

theorem refuses_readPragma {lexemes rest : List Lexeme} {cause : Cause} :
    (readPragma lexemes).Refuses cause rest ↔ RejectsPragma lexemes cause rest := by
  simp only [readPragma, refuses_andThen, refuses_map, refuses_acceptName, accepts_acceptName,
    refuses_readPragmaValue]
  constructor
  · rintro (⟨rfl, rfl, lacks⟩ | ⟨_, _, ⟨name, rfl, identifier, rfl⟩, rfl, rfl, noStop⟩)
    · exact .noName lacks
    · exact .unterminated identifier noStop
  · intro rejects
    cases rejects with
    | noName lacks => exact .inl ⟨rfl, rfl, lacks⟩
    | unterminated identifier noStop =>
        exact .inr ⟨_, _, ⟨_, rfl, identifier, rfl⟩, rfl, rfl, noStop⟩

theorem refuses_readImport {lexemes rest : List Lexeme} {cause : Cause} :
    (readImport lexemes).Refuses cause rest ↔
      cause = .expectedImportPath ∧ rest = [] ∧ lexemes = [] := by
  cases lexemes with
  | nil => simp [readImport, eq_comm]
  | cons path behind => simp [readImport]

theorem refuses_readItems {lexemes rest : List Lexeme} {cause : Cause} :
    (readItems lexemes).Refuses cause rest ↔ RejectsItems lexemes cause rest := by
  constructor
  · intro refuses
    induction lexemes using readItems.induct generalizing rest with
    | case1 =>
        rw [readItems] at refuses
        exact absurd refuses not_refuses_stay
    | case2 keyword behind isPragma ih =>
        rw [readItems, if_pos isPragma, refuses_relax, refuses_relax, refuses_andMaybe] at refuses
        rcases refuses with first | ⟨pragma, middle, first, refuses⟩
        · exact .inPragma isPragma (refuses_readPragma.mp first)
        · exact .behindPragma isPragma (accepts_readPragma.mp first)
            (ih middle first.shorter (refuses_map.mp refuses))
    | case3 keyword behind noPragma isImport ih =>
        rw [readItems, if_neg noPragma, if_pos isImport, refuses_relax, refuses_relax,
          refuses_andMaybe] at refuses
        rcases refuses with first | ⟨item, middle, first, refuses⟩
        · obtain ⟨rfl, rfl, rfl⟩ := refuses_readImport.mp first
          exact .noPath isImport
        · have rejects := ih middle first.shorter (refuses_map.mp refuses)
          obtain ⟨path, rfl, _⟩ := accepts_readImport.mp first
          exact .behindImport isImport rejects
    | case4 keyword behind noPragma noImport isContract ih =>
        rw [readItems, if_neg noPragma, if_neg noImport, if_pos isContract, refuses_relax,
          refuses_relax, refuses_andMaybe] at refuses
        rcases refuses with first | ⟨contract, middle, first, refuses⟩
        · exact .inContract isContract (refuses_readContract.mp first)
        · exact .behindContract isContract (accepts_readContract.mp first)
            (ih middle first.shorter (refuses_map.mp refuses))
    | case5 lexeme behind noPragma noImport noContract ih =>
        rw [readItems, if_neg noPragma, if_neg noImport, if_neg noContract, refuses_relax]
          at refuses
        exact .behindStray (by simpa using noPragma) (by simpa using noImport)
          (by simpa using noContract) (ih refuses)
  · intro rejects
    induction rejects with
    | inPragma isPragma pragma =>
        rw [readItems, if_pos isPragma, refuses_relax, refuses_relax, refuses_andMaybe]
        exact .inl (refuses_readPragma.mpr pragma)
    | behindPragma isPragma pragma _ ih =>
        rw [readItems, if_pos isPragma, refuses_relax, refuses_relax, refuses_andMaybe]
        exact .inr ⟨_, _, accepts_readPragma.mpr pragma, refuses_map.mpr ih⟩
    | noPath isImport =>
        have noPragma := not_isWord_of_isWord isImport (show "import" ≠ "pragma" by decide)
        rw [readItems, if_neg noPragma, if_pos isImport, refuses_relax, refuses_relax,
          refuses_andMaybe]
        exact .inl (refuses_readImport.mpr ⟨rfl, rfl, rfl⟩)
    | behindImport isImport _ ih =>
        have noPragma := not_isWord_of_isWord isImport (show "import" ≠ "pragma" by decide)
        rw [readItems, if_neg noPragma, if_pos isImport, refuses_relax, refuses_relax,
          refuses_andMaybe]
        exact .inr ⟨_, _, accepts_readImport.mpr ⟨_, rfl, rfl⟩, refuses_map.mpr ih⟩
    | inContract isContract contract =>
        have noPragma := not_isWord_of_isWord isContract (show "contract" ≠ "pragma" by decide)
        have noImport := not_isWord_of_isWord isContract (show "contract" ≠ "import" by decide)
        rw [readItems, if_neg noPragma, if_neg noImport, if_pos isContract, refuses_relax,
          refuses_relax, refuses_andMaybe]
        exact .inl (refuses_readContract.mpr contract)
    | behindContract isContract contract _ ih =>
        have noPragma := not_isWord_of_isWord isContract (show "contract" ≠ "pragma" by decide)
        have noImport := not_isWord_of_isWord isContract (show "contract" ≠ "import" by decide)
        rw [readItems, if_neg noPragma, if_neg noImport, if_pos isContract, refuses_relax,
          refuses_relax, refuses_andMaybe]
        exact .inr ⟨_, _, accepts_readContract.mpr contract, refuses_map.mpr ih⟩
    | behindStray noPragma noImport noContract _ ih =>
        rw [readItems, if_neg (by simp [noPragma]), if_neg (by simp [noImport]),
          if_neg (by simp [noContract]), refuses_relax]
        exact ih

end Grammar

/-- A text is refused exactly if its lexemes are rejected, at the token in front of the rest. -/
theorem parse_eq_error_iff {text : String} {error : ParseError} :
    (parse text).1 = .error error ↔
      ∃ rest, Grammar.RejectsItems (lexemesOf text) error.cause rest ∧
        error.found = Grammar.lookahead text.length rest := by
  have refuses : ∀ cause rest, Grammar.RejectsItems (lexemesOf text) cause rest ↔
      (Grammar.readProgram (lexemesOf text)).Refuses cause rest := by
    intro cause rest
    rw [Grammar.readProgram, Grammar.Outcome.refuses_map, Grammar.refuses_readItems]
  simp only [refuses, Grammar.Outcome.refuses_iff, parse, parseInto]
  obtain ⟨cause, found⟩ := error
  cases (Grammar.readProgram (lexemesOf text)).result with
  | ok program =>
      constructor
      · rintro ⟨⟩
      · rintro ⟨_, ⟨⟨⟩, _⟩, _⟩
  | error other =>
      constructor
      · rintro ⟨⟩
        exact ⟨_, ⟨rfl, rfl⟩, rfl⟩
      · rintro ⟨_, ⟨⟨⟩, rfl⟩, rfl⟩
        rfl

end ContractLens
