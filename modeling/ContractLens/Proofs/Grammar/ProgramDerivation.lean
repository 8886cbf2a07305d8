import ContractLens.Proofs.Grammar.MemberDerivation

/-!
# Derivations of programs

The grammar of contracts and whole programs as relations over the derivations of
members.  A program can be derived from the lexemes of a text exactly if the text
is accepted, and then it is the program that the text states.
-/

namespace ContractLens

namespace Grammar

open Outcome

/-! ## Contracts -/

inductive ReadsBases : List Lexeme → List Ident → List Lexeme → Prop where
  | last {name : Lexeme} {rest : List Lexeme} :
      name.kind = .identifier →
        (∀ next ∈ rest.head?, next.kind ≠ .comma) →
        ReadsBases (name :: rest) [nameOf name] rest
  | more {name comma : Lexeme} {lexemes rest : List Lexeme} {others : List Ident} :
      name.kind = .identifier →
        comma.kind = .comma →
        ReadsBases lexemes others rest →
        ReadsBases (name :: comma :: lexemes) (nameOf name :: others) rest

inductive ReadsInheritance : List Lexeme → List Ident → List Lexeme → Prop where
  | none {rest : List Lexeme} :
      (∀ next ∈ rest.head?, isWord "is" next = false) →
        ReadsInheritance rest [] rest
  | some {keyword : Lexeme} {lexemes rest : List Lexeme} {bases : List Ident} :
      isWord "is" keyword = true →
        ReadsBases lexemes bases rest →
        ReadsInheritance (keyword :: lexemes) bases rest

/-- The members of a contract up to its closing brace, or to the end of the input. -/
inductive ReadsMembers : List Lexeme → List Member → List Lexeme → Prop where
  | atEnd : ReadsMembers [] [] []
  | closed {closing : Lexeme} {rest : List Lexeme} :
      closing.kind = .rightBrace → ReadsMembers (closing :: rest) [] rest
  | function {keyword : Lexeme} {lexemes middle rest : List Lexeme} {function : ContractFunction}
      {members : List Member} :
      (isWord "constructor" keyword || isWord "function" keyword) = true →
        ReadsFunction (fromName keyword lexemes) function middle →
        ReadsMembers middle members rest →
        ReadsMembers (keyword :: lexemes) (.function function :: members) rest
  | stateVariable {type : Lexeme} {lexemes middle rest : List Lexeme}
      {declaration : StateVariable} {members : List Member} :
      type.kind = .identifier →
        (isWord "constructor" type || isWord "function" type) = false →
        ReadsVariable (nameOf type) lexemes declaration middle →
        ReadsMembers middle members rest →
        ReadsMembers (type :: lexemes) (.stateVariable declaration :: members) rest
  | stray {lexeme : Lexeme} {lexemes rest : List Lexeme} {members : List Member} :
      lexeme.kind ≠ .rightBrace →
        lexeme.kind ≠ .identifier →
        ReadsMembers lexemes members rest →
        ReadsMembers (lexeme :: lexemes) members rest

inductive ReadsContract : List Lexeme → Contract → List Lexeme → Prop where
  | intro {name brace : Lexeme} {lexemes inside rest : List Lexeme} {bases : List Ident}
      {members : List Member} :
      name.kind = .identifier →
        ReadsInheritance lexemes bases (brace :: inside) →
        brace.kind = .leftBrace →
        ReadsMembers inside members rest →
        ReadsContract (name :: lexemes) (contractOf (nameOf name) bases members) rest

theorem kind_of_isWord {word : String} {lexeme : Lexeme} (same : isWord word lexeme = true) :
    lexeme.kind = .identifier := by
  simp only [isWord, Bool.and_eq_true, decide_eq_true_eq] at same
  exact same.1

theorem kind_of_announces {lexeme : Lexeme}
    (announces : (isWord "constructor" lexeme || isWord "function" lexeme) = true) :
    lexeme.kind = .identifier := by
  rcases Bool.or_eq_true_iff.mp announces with same | same
  · exact kind_of_isWord same
  · exact kind_of_isWord same

theorem not_isWord_of_isWord {word other : String} {lexeme : Lexeme}
    (same : isWord word lexeme = true) (differ : word ≠ other) : ¬ isWord other lexeme = true := by
  simp only [isWord, Bool.and_eq_true, beq_iff_eq] at same ⊢
  rintro ⟨_, alike⟩
  exact differ (same.2.symm.trans alike)

theorem accepts_readBases {lexemes rest : List Lexeme} {bases : List Ident} :
    (readBases lexemes).Accepts bases rest ↔ ReadsBases lexemes bases rest := by
  constructor
  · intro accepts
    induction lexemes using readBases.induct generalizing bases rest with
    | case1 lexemes ih =>
        rw [readBases, accepts_andMaybe] at accepts
        obtain ⟨_, middle, first, accepts⟩ := accepts
        have shorter := first.shorter
        obtain ⟨name, rfl, identifier, rfl⟩ := accepts_acceptName.mp first
        cases middle with
        | nil =>
            obtain ⟨rfl, rfl⟩ := accepts_stay.mp accepts
            exact .last identifier (by simp)
        | cons next behind =>
            dsimp only at accepts
            split at accepts
            · next comma =>
                simp only [accepts_relax, accepts_map] at accepts
                obtain ⟨others, accepts, rfl⟩ := accepts
                exact .more identifier comma (ih [] next behind shorter accepts)
            · next noComma =>
                obtain ⟨rfl, rfl⟩ := accepts_stay.mp accepts
                exact .last identifier (by simpa using noComma)
  · intro reads
    induction reads with
    | @last name rest identifier ends =>
        rw [readBases, accepts_andMaybe]
        refine ⟨_, _, accepts_acceptName.mpr ⟨_, rfl, identifier, rfl⟩, ?_⟩
        cases rest with
        | nil => simp
        | cons next behind => simp [ends next rfl]
    | more identifier comma others ih =>
        rw [readBases, accepts_andMaybe]
        refine ⟨_, _, accepts_acceptName.mpr ⟨_, rfl, identifier, rfl⟩, ?_⟩
        simp only [comma, ↓reduceIte, accepts_relax, accepts_map]
        exact ⟨_, ih, rfl⟩

theorem accepts_readInheritance {lexemes rest : List Lexeme} {bases : List Ident} :
    (readInheritance lexemes).Accepts bases rest ↔ ReadsInheritance lexemes bases rest := by
  cases lexemes with
  | nil =>
      rw [readInheritance, accepts_stay]
      constructor
      · rintro ⟨rfl, rfl⟩
        exact .none (by simp)
      · rintro ⟨_⟩
        exact ⟨rfl, rfl⟩
  | cons first behind =>
      rw [readInheritance]
      split
      · next keyword =>
          simp only [accepts_relax, accepts_readBases]
          constructor
          · exact .some keyword
          · intro reads
            cases reads with
            | none absent => cases keyword.symm.trans (absent first rfl)
            | some _ bases => exact bases
      · next noKeyword =>
          rw [accepts_stay]
          constructor
          · rintro ⟨rfl, rfl⟩
            exact .none (by simpa using noKeyword)
          · intro reads
            cases reads with
            | none _ => exact ⟨rfl, rfl⟩
            | some keyword _ => exact absurd keyword noKeyword

theorem accepts_readMembers {lexemes rest : List Lexeme} {members : List Member} :
    (readMembers lexemes).Accepts members rest ↔ ReadsMembers lexemes members rest := by
  constructor
  · intro accepts
    induction lexemes using readMembers.induct generalizing members rest with
    | case1 =>
        rw [readMembers, accepts_stay] at accepts
        obtain ⟨rfl, rfl⟩ := accepts
        exact .atEnd
    | case2 closing behind brace =>
        rw [readMembers, if_pos brace, accepts_relax, accepts_take] at accepts
        obtain ⟨rfl, rfl⟩ := accepts
        exact .closed brace
    | case3 keyword behind noBrace announces ih =>
        rw [readMembers, if_neg noBrace, if_pos announces, accepts_relax, accepts_andMaybe]
          at accepts
        obtain ⟨function, middle, first, accepts⟩ := accepts
        obtain ⟨others, remaining, rfl⟩ := accepts_map.mp accepts
        have identifier := kind_of_announces announces
        exact .function announces ((accepts_readFunction identifier).mp first)
          (ih middle first.shorter remaining)
    | case4 type behind noBrace announcesNone identifier ih =>
        rw [readMembers, if_neg noBrace, if_neg announcesNone, if_pos identifier, accepts_relax,
          accepts_relax, accepts_andMaybe] at accepts
        obtain ⟨declaration, middle, first, accepts⟩ := accepts
        obtain ⟨others, remaining, rfl⟩ := accepts_map.mp accepts
        exact .stateVariable identifier (by simpa using announcesNone)
          (accepts_readVariable.mp first) (ih middle first.shorter remaining)
    | case5 lexeme behind noBrace announcesNone noIdentifier ih =>
        rw [readMembers, if_neg noBrace, if_neg announcesNone, if_neg noIdentifier,
          accepts_relax] at accepts
        exact .stray noBrace noIdentifier (ih accepts)
  · intro reads
    induction reads with
    | atEnd => simp [readMembers]
    | closed brace => simp [readMembers, brace]
    | @function keyword _ _ _ _ _ announces function _ ih =>
        have identifier := kind_of_announces announces
        rw [readMembers, if_neg (by simp [identifier]), if_pos announces, accepts_relax,
          accepts_andMaybe]
        exact ⟨_, _, (accepts_readFunction identifier).mpr function,
          accepts_map.mpr ⟨_, ih, rfl⟩⟩
    | stateVariable identifier announcesNone declaration _ ih =>
        rw [readMembers, if_neg (by simp [identifier]), if_neg (by simp [announcesNone]),
          if_pos identifier, accepts_relax, accepts_relax, accepts_andMaybe]
        exact ⟨_, _, accepts_readVariable.mpr declaration, accepts_map.mpr ⟨_, ih, rfl⟩⟩
    | stray noBrace noIdentifier _ ih =>
        rw [readMembers, if_neg noBrace, if_neg (by simp [isWord, noIdentifier]),
          if_neg noIdentifier, accepts_relax]
        exact ih

theorem accepts_readContract {lexemes rest : List Lexeme} {contract : Contract} :
    (readContract lexemes).Accepts contract rest ↔ ReadsContract lexemes contract rest := by
  simp only [readContract, accepts_andThen, accepts_andMaybe, accepts_map, accepts_accept,
    accepts_acceptName, accepts_readInheritance, accepts_readMembers]
  constructor
  · rintro ⟨_, _, ⟨name, rfl, identifier, rfl⟩, bases, _, inherits, brace, inside,
      ⟨rfl, opens⟩, members, reads, rfl⟩
    exact .intro identifier inherits opens reads
  · rintro ⟨identifier, inherits, opens, reads⟩
    exact ⟨_, _, ⟨_, rfl, identifier, rfl⟩, _, _, inherits, _, _, ⟨rfl, opens⟩, _, reads, rfl⟩

/-! ## Programs -/

inductive ReadsPragma : List Lexeme → Pragma → List Lexeme → Prop where
  | intro {name stop : Lexeme} {values rest : List Lexeme} :
      name.kind = .identifier →
        (∀ value ∈ values, value.kind ≠ .semicolon) →
        stop.kind = .semicolon →
        ReadsPragma (name :: (values ++ stop :: rest))
          ⟨nameOf name, String.join (values.map Lexeme.literal)⟩ rest

inductive ReadsItems : List Lexeme → List Item → Prop where
  | atEnd : ReadsItems [] []
  | pragma {keyword : Lexeme} {lexemes rest : List Lexeme} {pragma : Pragma}
      {items : List Item} :
      isWord "pragma" keyword = true →
        ReadsPragma lexemes pragma rest →
        ReadsItems rest items →
        ReadsItems (keyword :: lexemes) (.pragma pragma :: items)
  | importing {keyword path : Lexeme} {lexemes : List Lexeme} {items : List Item} :
      isWord "import" keyword = true →
        ReadsItems lexemes items →
        ReadsItems (keyword :: path :: lexemes) (.importing ⟨path.literal⟩ :: items)
  | contract {keyword : Lexeme} {lexemes rest : List Lexeme} {contract : Contract}
      {items : List Item} :
      isWord "contract" keyword = true →
        ReadsContract lexemes contract rest →
        ReadsItems rest items →
        ReadsItems (keyword :: lexemes) (.contract contract :: items)
  | stray {lexeme : Lexeme} {lexemes : List Lexeme} {items : List Item} :
      isWord "pragma" lexeme = false →
        isWord "import" lexeme = false →
        isWord "contract" lexeme = false →
        ReadsItems lexemes items →
        ReadsItems (lexeme :: lexemes) items

/-- The value of a pragma is what stands in front of the first semicolon. -/
theorem accepts_readPragmaValue {name value : String} {lexemes rest : List Lexeme} :
    (readPragmaValue name lexemes).Accepts value rest ↔
      ∃ values stop, lexemes = values ++ stop :: rest ∧
        (∀ part ∈ values, part.kind ≠ .semicolon) ∧ stop.kind = .semicolon ∧
        String.join (values.map Lexeme.literal) = value := by
  induction lexemes generalizing value with
  | nil => simp [readPragmaValue]
  | cons first behind ih =>
      rw [readPragmaValue]
      split
      · next semicolon =>
          rw [accepts_take]
          constructor
          · rintro ⟨rfl, rfl⟩
            exact ⟨[], first, rfl, by simp, semicolon, rfl⟩
          · rintro ⟨values, stop, whole, noSemicolon, _, rfl⟩
            cases values with
            | nil =>
                cases whole
                exact ⟨rfl, rfl⟩
            | cons part parts =>
                cases whole
                exact absurd semicolon (noSemicolon first (by simp))
      · next goesOn =>
          simp only [accepts_relax, accepts_map, ih]
          constructor
          · rintro ⟨_, ⟨values, stop, rfl, noSemicolon, semicolon, rfl⟩, rfl⟩
            exact ⟨first :: values, stop, rfl, by simpa using ⟨goesOn, noSemicolon⟩, semicolon,
              by simp⟩
          · rintro ⟨values, stop, whole, noSemicolon, semicolon, rfl⟩
            cases values with
            | nil =>
                cases whole
                exact absurd semicolon goesOn
            | cons part parts =>
                cases whole
                simp only [List.mem_cons, forall_eq_or_imp] at noSemicolon
                exact ⟨_, ⟨parts, stop, rfl, noSemicolon.2, semicolon, rfl⟩, by simp⟩

theorem accepts_readPragma {lexemes rest : List Lexeme} {pragma : Pragma} :
    (readPragma lexemes).Accepts pragma rest ↔ ReadsPragma lexemes pragma rest := by
  simp only [readPragma, accepts_andThen, accepts_map, accepts_acceptName,
    accepts_readPragmaValue]
  constructor
  · rintro ⟨_, _, ⟨name, rfl, identifier, rfl⟩, _, ⟨values, stop, rfl, noSemicolon, semicolon,
      rfl⟩, rfl⟩
    exact .intro identifier noSemicolon semicolon
  · rintro ⟨identifier, noSemicolon, semicolon⟩
    exact ⟨_, _, ⟨_, rfl, identifier, rfl⟩, _, ⟨_, _, rfl, noSemicolon, semicolon, rfl⟩, rfl⟩

theorem accepts_readImport {lexemes rest : List Lexeme} {item : Import} :
    (readImport lexemes).Accepts item rest ↔
      ∃ path, lexemes = path :: rest ∧ ⟨path.literal⟩ = item := by
  cases lexemes with
  | nil => simp [readImport]
  | cons path behind =>
      rw [readImport, accepts_take]
      constructor
      · rintro ⟨rfl, rfl⟩
        exact ⟨path, rfl, rfl⟩
      · rintro ⟨_, ⟨rfl, rfl⟩, rfl⟩
        exact ⟨rfl, rfl⟩

theorem accepts_readItems {lexemes rest : List Lexeme} {items : List Item} :
    (readItems lexemes).Accepts items rest ↔ ReadsItems lexemes items ∧ rest = [] := by
  constructor
  · intro accepts
    induction lexemes using readItems.induct generalizing items rest with
    | case1 =>
        rw [readItems, accepts_stay] at accepts
        obtain ⟨rfl, rfl⟩ := accepts
        exact ⟨.atEnd, rfl⟩
    | case2 keyword behind isPragma ih =>
        rw [readItems, if_pos isPragma, accepts_relax, accepts_relax, accepts_andMaybe] at accepts
        obtain ⟨pragma, middle, first, accepts⟩ := accepts
        obtain ⟨others, remaining, rfl⟩ := accepts_map.mp accepts
        obtain ⟨others, rfl⟩ := ih middle first.shorter remaining
        exact ⟨.pragma isPragma (accepts_readPragma.mp first) others, rfl⟩
    | case3 keyword behind noPragma isImport ih =>
        rw [readItems, if_neg noPragma, if_pos isImport, accepts_relax, accepts_relax,
          accepts_andMaybe] at accepts
        obtain ⟨item, middle, first, accepts⟩ := accepts
        obtain ⟨others, remaining, rfl⟩ := accepts_map.mp accepts
        obtain ⟨others, rfl⟩ := ih middle first.shorter remaining
        obtain ⟨path, rfl, rfl⟩ := accepts_readImport.mp first
        exact ⟨.importing isImport others, rfl⟩
    | case4 keyword behind noPragma noImport isContract ih =>
        rw [readItems, if_neg noPragma, if_neg noImport, if_pos isContract, accepts_relax,
          accepts_relax, accepts_andMaybe] at accepts
        obtain ⟨contract, middle, first, accepts⟩ := accepts
        obtain ⟨others, remaining, rfl⟩ := accepts_map.mp accepts
        obtain ⟨others, rfl⟩ := ih middle first.shorter remaining
        exact ⟨.contract isContract (accepts_readContract.mp first) others, rfl⟩
    | case5 lexeme behind noPragma noImport noContract ih =>
        rw [readItems, if_neg noPragma, if_neg noImport, if_neg noContract, accepts_relax]
          at accepts
        obtain ⟨others, rfl⟩ := ih accepts
        exact ⟨.stray (by simpa using noPragma) (by simpa using noImport)
          (by simpa using noContract) others, rfl⟩
  · rintro ⟨reads, rfl⟩
    induction reads with
    | atEnd => simp [readItems]
    | pragma isPragma pragma _ ih =>
        rw [readItems, if_pos isPragma, accepts_relax, accepts_relax, accepts_andMaybe]
        exact ⟨_, _, accepts_readPragma.mpr pragma, accepts_map.mpr ⟨_, ih, rfl⟩⟩
    | importing isImport _ ih =>
        have noPragma := not_isWord_of_isWord isImport (show "import" ≠ "pragma" by decide)
        rw [readItems, if_neg noPragma, if_pos isImport, accepts_relax, accepts_relax,
          accepts_andMaybe]
        exact ⟨_, _, accepts_readImport.mpr ⟨_, rfl, rfl⟩, accepts_map.mpr ⟨_, ih, rfl⟩⟩
    | contract isContract contract _ ih =>
        have noPragma := not_isWord_of_isWord isContract (show "contract" ≠ "pragma" by decide)
        have noImport := not_isWord_of_isWord isContract (show "contract" ≠ "import" by decide)
        rw [readItems, if_neg noPragma, if_neg noImport, if_pos isContract, accepts_relax,
          accepts_relax, accepts_andMaybe]
        exact ⟨_, _, accepts_readContract.mpr contract, accepts_map.mpr ⟨_, ih, rfl⟩⟩
    | stray noPragma noImport noContract _ ih =>
        rw [readItems, if_neg (by simp [noPragma]), if_neg (by simp [noImport]),
          if_neg (by simp [noContract]), accepts_relax]
        exact ih

/-- A program is the one that its items make up, and it is read to the end of the input. -/
theorem accepts_readProgram {lexemes rest : List Lexeme} {program : Program} :
    (readProgram lexemes).Accepts program rest ↔
      ∃ items, ReadsItems lexemes items ∧ programOf items = program ∧ rest = [] := by
  rw [readProgram, accepts_map]
  constructor
  · rintro ⟨items, accepts, rfl⟩
    obtain ⟨reads, rfl⟩ := accepts_readItems.mp accepts
    exact ⟨items, reads, rfl, rfl⟩
  · rintro ⟨items, reads, rfl, rfl⟩
    exact ⟨items, accepts_readItems.mpr ⟨reads, rfl⟩, rfl⟩

end Grammar

theorem parse_eq_ok {text : String} {program : Program} :
    (parse text).1 = .ok program ↔
      (Grammar.readProgram (lexemesOf text)).result = .ok program := by
  simp only [parse, parseInto]
  cases (Grammar.readProgram (lexemesOf text)).result with
  | ok other => constructor <;> rintro ⟨⟩ <;> rfl
  | error cause => constructor <;> rintro ⟨⟩

/-- A text states a program exactly if the items of it can be derived from the lexemes. -/
theorem parse_eq_ok_iff {text : String} {program : Program} :
    (parse text).1 = .ok program ↔
      ∃ items, Grammar.ReadsItems (lexemesOf text) items ∧ Grammar.programOf items = program := by
  rw [parse_eq_ok]
  constructor
  · intro result
    have accepts := Grammar.Outcome.accepts_iff.mpr ⟨result, rfl⟩
    obtain ⟨items, reads, same, _⟩ := Grammar.accepts_readProgram.mp accepts
    exact ⟨items, reads, same⟩
  · rintro ⟨items, reads, same⟩
    have accepts := Grammar.accepts_readProgram.mpr ⟨items, reads, same, rfl⟩
    exact (Grammar.Outcome.accepts_iff.mp accepts).1

end ContractLens
