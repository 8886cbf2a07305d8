import ContractLens.Proofs.Grammar.Completion
import ContractLens.Proofs.Syntax.Equality
import ContractLens.Proofs.Token.Truncation

/-!
# Missing braces

A body and a contract end with the input as well as with a brace, and what is no item is
passed over.  So a text means the same without the braces at its end, whether they close
something or not.  Only a brace that is taken as the path of an import cannot be missed.
-/

namespace ContractLens

namespace Grammar

variable {lexemes rest front braces : List Lexeme}

/-! ## What stands in front of the braces -/

/-- All of the lexemes are closing braces. -/
def OnlyBraces (lexemes : List Lexeme) : Prop :=
  ∀ lexeme ∈ lexemes, lexeme.kind = .rightBrace

/-- What is taken up to a lexeme that is no brace is taken in front of the braces. -/
theorem OnlyBraces.exists_left {taken : List Lexeme} {last : Lexeme} (closing : OnlyBraces braces)
    (whole : taken ++ last :: rest = front ++ braces) (noBrace : last.kind ≠ .rightBrace) :
    ∃ left, front = taken ++ last :: left ∧ rest = left ++ braces := by
  rcases List.append_eq_append_iff.mp whole with ⟨left, split, behind⟩ | ⟨beyond, rfl, within⟩
  · cases left with
    | nil =>
        have member : last ∈ [] ++ braces := behind ▸ List.mem_cons_self
        exact absurd (closing last member) noBrace
    | cons first left =>
        obtain ⟨rfl, remaining⟩ := List.cons.inj behind
        exact ⟨left, split, remaining⟩
  · have member : last ∈ braces := within ▸ List.mem_append_right beyond List.mem_cons_self
    exact absurd (closing last member) noBrace

theorem OnlyBraces.exists_cons {first : Lexeme} (closing : OnlyBraces braces)
    (whole : first :: rest = front ++ braces) (noBrace : first.kind ≠ .rightBrace) :
    ∃ left, front = first :: left ∧ rest = left ++ braces := by
  rw [← List.nil_append (first :: rest)] at whole
  exact closing.exists_left whole noBrace

theorem OnlyBraces.of_subset {others : List Lexeme} (closing : OnlyBraces braces)
    (among : others ⊆ braces) : OnlyBraces others :=
  fun lexeme member => closing lexeme (among member)

/-! ## Members -/

/-- A statement ends with a semicolon, so no brace behind it is needed. -/
theorem ReadsStatement.without_braces {statement : List Expression}
    (reads : ReadsStatement lexemes statement rest) (closing : OnlyBraces braces)
    (whole : lexemes = front ++ braces) :
    ∃ left, rest = left ++ braces ∧ ReadsStatement front statement left := by
  induction reads generalizing front with
  | @last lexemes rest expression stop reads semicolon =>
      obtain ⟨taken, rfl, again⟩ := reads.followed
      obtain ⟨left, rfl, rfl⟩ := closing.exists_left whole (by simp [semicolon])
      exact ⟨left, rfl, .last (again (stop :: left) (.inl rfl)) semicolon⟩
  | @more lexemes middle rest first others reads goesOn more ih =>
      obtain ⟨taken, rfl, again⟩ := reads.followed
      obtain ⟨next, behind, rfl, opens⟩ := more.opens
      obtain ⟨left, rfl, rfl⟩ := closing.exists_left whole (ne_of_opensOperand opens rfl)
      have behindFirst : next :: (left ++ braces) = next :: left ++ braces := rfl
      obtain ⟨remaining, rfl, others⟩ := ih behindFirst
      exact ⟨remaining, rfl, .more (again (next :: left) (.inl rfl)) goesOn others⟩

/-- A body that is not closed by a brace is closed by the end of the input. -/
theorem ReadsBody.without_braces {body : List Expression} (reads : ReadsBody lexemes body rest)
    (closing : OnlyBraces braces) (whole : lexemes = front ++ braces) :
    ∃ left others, rest = left ++ others ∧ others ⊆ braces ∧ ReadsBody front body left := by
  induction reads generalizing front with
  | atEnd =>
      obtain ⟨rfl, rfl⟩ := List.append_eq_nil_iff.mp whole.symm
      exact ⟨[], [], rfl, List.Subset.refl _, .atEnd⟩
  | @closed brace rest isBrace =>
      rcases List.cons_eq_append_iff.mp whole with ⟨rfl, rfl⟩ | ⟨left, rfl, rfl⟩
      · exact ⟨[], rest, rfl, List.subset_cons_self _ _, .atEnd⟩
      · exact ⟨left, braces, rfl, List.Subset.refl _, .closed isBrace⟩
  | empty semicolon _ ih =>
      obtain ⟨left, rfl, rfl⟩ := closing.exists_cons whole (by simp [semicolon])
      obtain ⟨remaining, others, rfl, among, body⟩ := ih rfl
      exact ⟨remaining, others, rfl, among, .empty semicolon body⟩
  | statement statement _ ih =>
      obtain ⟨left, rfl, first⟩ := statement.without_braces closing whole
      obtain ⟨remaining, others, rfl, among, body⟩ := ih rfl
      exact ⟨remaining, others, rfl, among, .statement first body⟩

theorem ReadsFunction.without_braces {function : ContractFunction}
    (reads : ReadsFunction lexemes function rest) (closing : OnlyBraces braces)
    (whole : lexemes = front ++ braces) :
    ∃ left others, rest = left ++ others ∧ others ⊆ braces ∧
      ReadsFunction front function left := by
  cases reads with
  | @intro name opening close brace words inside rest visibility body identifier opens closes
      states opensBody reads =>
      have upToBrace : (name :: opening :: close :: words) ++ brace :: inside =
          front ++ braces := whole
      obtain ⟨left, rfl, rfl⟩ := closing.exists_left upToBrace (by simp [opensBody])
      obtain ⟨remaining, others, rfl, among, body⟩ := reads.without_braces closing rfl
      exact ⟨remaining, others, rfl, among, .intro identifier opens closes states opensBody body⟩

/-- The lexemes of a function from its name on go as far as those behind the first word. -/
theorem fromName_append (keyword : Lexeme) (front behind : List Lexeme) :
    fromName keyword (front ++ behind) = fromName keyword front ++ behind := by
  unfold fromName
  split <;> rfl

theorem ReadsVariable.without_braces {type : Ident} {declaration : StateVariable}
    (reads : ReadsVariable type lexemes declaration rest) (closing : OnlyBraces braces)
    (whole : lexemes = front ++ braces) :
    ∃ left, rest = left ++ braces ∧ ReadsVariable type front declaration left := by
  cases reads with
  | @intro assign stop lexemes inside rest header value accepts same reads semicolon =>
      obtain ⟨taken, rfl, again⟩ := reads.followed
      obtain ⟨words, rfl, headerAgain⟩ := readHeader_relocated accepts
      have upToStop : (words ++ assign :: taken) ++ stop :: rest = front ++ braces := by
        simpa using whole
      obtain ⟨left, rfl, rfl⟩ := closing.exists_left upToStop (by simp [semicolon])
      refine ⟨left, rfl, ?_⟩
      have header := headerAgain id (assign :: (taken ++ stop :: left))
      have value := again (stop :: left) (.inl rfl)
      simpa using ReadsVariable.intro header same value semicolon

/-! ## Contracts -/

theorem ReadsMembers.without_braces {members : List Member}
    (reads : ReadsMembers lexemes members rest) (closing : OnlyBraces braces)
    (whole : lexemes = front ++ braces) :
    ∃ left others, rest = left ++ others ∧ others ⊆ braces ∧
      ReadsMembers front members left := by
  induction reads generalizing front braces with
  | atEnd =>
      obtain ⟨rfl, rfl⟩ := List.append_eq_nil_iff.mp whole.symm
      exact ⟨[], [], rfl, List.Subset.refl _, .atEnd⟩
  | @closed brace rest isBrace =>
      rcases List.cons_eq_append_iff.mp whole with ⟨rfl, rfl⟩ | ⟨left, rfl, rfl⟩
      · exact ⟨[], rest, rfl, List.subset_cons_self _ _, .atEnd⟩
      · exact ⟨left, braces, rfl, List.Subset.refl _, .closed isBrace⟩
  | function announces function _ ih =>
      obtain ⟨left, rfl, rfl⟩ := closing.exists_cons whole (by simp [kind_of_announces announces])
      -- One of the braces may have closed the body, so fewer of them are left for the contract.
      obtain ⟨behind, remainingBraces, rfl, amongAll, first⟩ :=
        function.without_braces closing (fromName_append _ left braces)
      obtain ⟨remaining, others, rfl, among, members⟩ := ih (closing.of_subset amongAll) rfl
      exact ⟨remaining, others, rfl, List.Subset.trans among amongAll,
        .function announces first members⟩
  | stateVariable identifier noFunction declaration _ ih =>
      obtain ⟨left, rfl, rfl⟩ := closing.exists_cons whole (by simp [identifier])
      obtain ⟨behind, rfl, first⟩ := declaration.without_braces closing rfl
      obtain ⟨remaining, others, rfl, among, members⟩ := ih closing rfl
      exact ⟨remaining, others, rfl, among, .stateVariable identifier noFunction first members⟩
  | stray noBrace noIdentifier _ ih =>
      obtain ⟨left, rfl, rfl⟩ := closing.exists_cons whole noBrace
      obtain ⟨remaining, others, rfl, among, members⟩ := ih closing rfl
      exact ⟨remaining, others, rfl, among, .stray noBrace noIdentifier members⟩

theorem ReadsContract.without_braces {contract : Contract}
    (reads : ReadsContract lexemes contract rest) (closing : OnlyBraces braces)
    (whole : lexemes = front ++ braces) :
    ∃ left others, rest = left ++ others ∧ others ⊆ braces ∧
      ReadsContract front contract left := by
  cases reads with
  | @intro name brace lexemes inside rest bases members identifier inherits opens reads =>
      obtain ⟨taken, rfl, again⟩ := inherits.relocated
      have upToBrace : (name :: taken) ++ brace :: inside = front ++ braces := whole
      obtain ⟨left, rfl, rfl⟩ := closing.exists_left upToBrace (by simp [opens])
      obtain ⟨remaining, others, rfl, among, members⟩ := reads.without_braces closing rfl
      have inherits := again id (brace :: left) (.inl rfl)
      rw [Lexeme.map_relocate_id, Ident.map_relocate_id] at inherits
      exact ⟨remaining, others, rfl, among, .intro identifier inherits opens members⟩

/-! ## Programs -/

theorem ReadsPragma.without_braces {pragma : Pragma} (reads : ReadsPragma lexemes pragma rest)
    (closing : OnlyBraces braces) (whole : lexemes = front ++ braces) :
    ∃ left, rest = left ++ braces ∧ ReadsPragma front pragma left := by
  cases reads with
  | @intro name stop values rest identifier noSemicolon semicolon =>
      have upToStop : (name :: values) ++ stop :: rest = front ++ braces := whole
      obtain ⟨left, rfl, rfl⟩ := closing.exists_left upToStop (by simp [semicolon])
      exact ⟨left, rfl, .intro identifier noSemicolon semicolon⟩

/-- Where the items of the lexemes are read, this lexeme is taken as the path of an import. -/
inductive TakenAsPath (path : Lexeme) : List Lexeme → Prop where
  | here {keyword : Lexeme} {rest : List Lexeme} :
      isWord "import" keyword = true → TakenAsPath path (keyword :: path :: rest)
  | behindPragma {keyword : Lexeme} {lexemes rest : List Lexeme} {pragma : Pragma} :
      isWord "pragma" keyword = true →
        ReadsPragma lexemes pragma rest →
        TakenAsPath path rest →
        TakenAsPath path (keyword :: lexemes)
  | behindImport {keyword other : Lexeme} {lexemes : List Lexeme} :
      isWord "import" keyword = true →
        TakenAsPath path lexemes →
        TakenAsPath path (keyword :: other :: lexemes)
  | behindContract {keyword : Lexeme} {lexemes rest : List Lexeme} {contract : Contract} :
      isWord "contract" keyword = true →
        ReadsContract lexemes contract rest →
        TakenAsPath path rest →
        TakenAsPath path (keyword :: lexemes)
  | behindStray {lexeme : Lexeme} {lexemes : List Lexeme} :
      isWord "pragma" lexeme = false →
        isWord "import" lexeme = false →
        isWord "contract" lexeme = false →
        TakenAsPath path lexemes →
        TakenAsPath path (lexeme :: lexemes)

/-- The word that announces an import stands in front of its path. -/
theorem TakenAsPath.exists_import {path : Lexeme} (taken : TakenAsPath path lexemes) :
    ∃ keyword, isWord "import" keyword = true ∧ [keyword, path] <:+: lexemes := by
  -- Each item is passed as a whole, so what stands behind it is a suffix.
  have behindSuffix : ∀ {rest lexemes : List Lexeme}, rest <:+ lexemes →
      (∃ keyword, isWord "import" keyword = true ∧ [keyword, path] <:+: rest) →
      ∃ keyword, isWord "import" keyword = true ∧ [keyword, path] <:+: lexemes := by
    rintro rest lexemes behind ⟨keyword, isImport, inside⟩
    exact ⟨keyword, isImport, inside.trans behind.isInfix⟩
  induction taken with
  | @here keyword rest isImport => exact ⟨keyword, isImport, [], rest, rfl⟩
  | @behindPragma keyword lexemes rest pragma _ reads _ ih =>
      obtain ⟨taken, rfl, _⟩ := reads.relocated
      exact behindSuffix (List.suffix_append (keyword :: taken) rest) ih
  | @behindImport keyword other lexemes _ _ ih =>
      exact behindSuffix (List.suffix_append [keyword, other] lexemes) ih
  | @behindContract keyword lexemes rest contract _ reads _ ih =>
      obtain ⟨taken, rfl, _⟩ := reads.relocated
      exact behindSuffix (List.suffix_append (keyword :: taken) rest) ih
  | @behindStray lexeme lexemes _ _ _ _ ih =>
      exact behindSuffix (List.suffix_cons lexeme lexemes) ih

/-- The items are the same without braces behind them that are no path of an import. -/
theorem ReadsItems.without_braces {items : List Item} (reads : ReadsItems lexemes items)
    (closing : OnlyBraces braces) (noPath : ∀ brace ∈ braces, ¬ TakenAsPath brace lexemes)
    (whole : lexemes = front ++ braces) : ReadsItems front items := by
  induction reads generalizing front braces with
  | atEnd =>
      obtain ⟨rfl, rfl⟩ := List.append_eq_nil_iff.mp whole.symm
      exact .atEnd
  | pragma isPragma pragma _ ih =>
      have noPathBehind := fun brace member taken =>
        noPath brace member (.behindPragma isPragma pragma taken)
      obtain ⟨left, rfl, rfl⟩ := closing.exists_cons whole (by simp [kind_of_isWord isPragma])
      obtain ⟨behind, rfl, first⟩ := pragma.without_braces closing rfl
      exact .pragma isPragma first (ih closing noPathBehind rfl)
  | @importing keyword path lexemes items isImport _ ih =>
      have noPathBehind := fun brace member taken =>
        noPath brace member (.behindImport isImport taken)
      obtain ⟨left, rfl, behind⟩ :=
        closing.exists_cons whole (by simp [kind_of_isWord isImport])
      rcases List.cons_eq_append_iff.mp behind with ⟨rfl, rfl⟩ | ⟨left, rfl, rfl⟩
      -- The path would be the first of the braces.
      · exact absurd (.here isImport) (noPath path List.mem_cons_self)
      · exact .importing isImport (ih closing noPathBehind rfl)
  | contract isContract contract _ ih =>
      have noPathBehind := fun brace member taken =>
        noPath brace member (.behindContract isContract contract taken)
      obtain ⟨left, rfl, rfl⟩ := closing.exists_cons whole (by simp [kind_of_isWord isContract])
      obtain ⟨behind, others, rfl, among, first⟩ := contract.without_braces closing rfl
      exact .contract isContract first
        (ih (closing.of_subset among) (fun brace member => noPathBehind brace (among member)) rfl)
  | @stray lexeme lexemes items noPragma noImport noContract _ ih =>
      have noPathBehind := fun brace member taken =>
        noPath brace member (.behindStray noPragma noImport noContract taken)
      rcases List.cons_eq_append_iff.mp whole with ⟨rfl, rfl⟩ | ⟨left, rfl, rfl⟩
      · exact ih (closing.of_subset (List.subset_cons_self _ _))
          (fun brace member => noPathBehind brace (List.mem_cons_of_mem _ member)) rfl
      · exact .stray noPragma noImport noContract (ih closing noPathBehind rfl)

end Grammar

/-- A text states the same program if it is cut off in front of the braces at its end. -/
theorem parse_without_braces {text : String} {program : Program} {front braces : List Lexeme}
    {brace : Lexeme} (accepted : (parse text).1 = .ok program)
    (whole : lexemesOf text = front ++ brace :: braces)
    (closing : Grammar.OnlyBraces (brace :: braces))
    (noPath : ∀ path ∈ brace :: braces, ¬ Grammar.TakenAsPath path (lexemesOf text)) :
    (parse (String.ofList (text.toList.take brace.pos))).1 = .ok program := by
  obtain ⟨items, reads, program⟩ := parse_eq_ok_iff.mp accepted
  refine parse_eq_ok_iff.mpr ⟨items, ?_, program⟩
  rw [lexemesOf_take whole]
  exact reads.without_braces closing noPath whole

/-- A body and its contract are left open, with an import in front of them. -/
theorem parse_without_two_braces :
    ∃ (program : Program) (front : List Lexeme),
      lexemesOf "import a contract A { function f() { b; } } // end" =
        front ++ [⟨40, .rightBrace, "\x7d"⟩, ⟨42, .rightBrace, "\x7d"⟩] ∧
      (parse "import a contract A { function f() { b; } } // end").1 = .ok program ∧
      (parse (String.ofList
        ("import a contract A { function f() { b; } } // end".toList.take 40))).1 =
        .ok program := by
  let front : List Lexeme := [⟨0, .identifier, "import"⟩, ⟨7, .identifier, "a"⟩,
    ⟨9, .identifier, "contract"⟩, ⟨18, .identifier, "A"⟩, ⟨20, .leftBrace, "\x7b"⟩,
    ⟨22, .identifier, "function"⟩, ⟨31, .identifier, "f"⟩, ⟨32, .leftParen, "("⟩,
    ⟨33, .rightParen, ")"⟩, ⟨35, .leftBrace, "\x7b"⟩, ⟨37, .identifier, "b"⟩,
    ⟨38, .semicolon, ";"⟩]
  let brace : Lexeme := ⟨40, .rightBrace, "\x7d"⟩
  let last : Lexeme := ⟨42, .rightBrace, "\x7d"⟩
  let program : Program :=
    ⟨none, [⟨"a"⟩], [⟨⟨"A", 18⟩, [], [], [⟨⟨"f", 31⟩, .pub, [.ident ⟨"b", 37⟩]⟩]⟩]⟩
  have whole : lexemesOf "import a contract A { function f() { b; } } // end" =
      front ++ brace :: [last] := by
    decide +kernel
  have accepted : (parse "import a contract A { function f() { b; } } // end").1 =
      .ok program := by
    decide +kernel
  have closing : Grammar.OnlyBraces (brace :: [last]) := by
    unfold Grammar.OnlyBraces
    decide
  have noPath : ∀ path ∈ brace :: [last], ¬ Grammar.TakenAsPath path
      (lexemesOf "import a contract A { function f() { b; } } // end") := by
    intro path member taken
    obtain ⟨keyword, isImport, inside⟩ := taken.exists_import
    rw [whole] at inside
    have noImport : ∀ path ∈ brace :: [last], ∀ keyword ∈ front ++ brace :: [last],
        Grammar.isWord "import" keyword = true →
          ¬ [keyword, path] <:+: front ++ brace :: [last] := by
      decide
    exact noImport path member keyword (inside.subset List.mem_cons_self) isImport inside
  have cut := parse_without_braces accepted whole closing noPath
  exact ⟨program, front, whole, accepted, cut⟩

end ContractLens
