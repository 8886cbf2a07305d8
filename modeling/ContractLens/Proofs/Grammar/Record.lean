import ContractLens.Proofs.Grammar.Spelling
import Mathlib.Data.List.Forall2

/-!
# Recorded lexemes

A program records the offsets of its names, literals, operators and parentheses.
Each of them is the offset of a lexeme of the text.  A contract sorts its members
into state variables and functions, so the lexemes that it records stand in the
order of the text within either of the two lists, and all of them together are a
rearrangement of lexemes in that order.
-/

namespace ContractLens

/-- The lexemes whose offsets an expression records, from left to right. -/
def Expression.recorded (expression : Expression) : List Lexeme :=
  expression.signs.filterMap Sign.lexeme?

def StateVariable.recorded (declaration : StateVariable) : List Lexeme :=
  declaration.type.lexeme :: declaration.name.lexeme :: declaration.value.recorded

def ContractFunction.recorded (function : ContractFunction) : List Lexeme :=
  function.name.lexeme :: function.body.flatMap Expression.recorded

def Grammar.Member.recorded : Member → List Lexeme
  | stateVariable declaration => declaration.recorded
  | function routine => routine.recorded

namespace Grammar.Member

@[simp] theorem stateVariable?_stateVariable (declaration : StateVariable) :
    (stateVariable declaration).stateVariable? = some declaration :=
  rfl

@[simp] theorem stateVariable?_function (routine : ContractFunction) :
    (function routine).stateVariable? = none :=
  rfl

@[simp] theorem function?_stateVariable (declaration : StateVariable) :
    (stateVariable declaration).function? = none :=
  rfl

@[simp] theorem function?_function (routine : ContractFunction) :
    (function routine).function? = some routine :=
  rfl

@[simp] theorem recorded_stateVariable (declaration : StateVariable) :
    (stateVariable declaration).recorded = declaration.recorded :=
  rfl

@[simp] theorem recorded_function (routine : ContractFunction) :
    (function routine).recorded = routine.recorded :=
  rfl

end Grammar.Member

namespace Contract

/-- The lexemes whose offsets a contract records in front of its members. -/
def heading (contract : Contract) : List Lexeme :=
  (contract.name :: contract.bases).map Ident.lexeme

/-- The lexemes whose offsets a contract records, by the kinds of its members. -/
def recorded (contract : Contract) : List Lexeme :=
  contract.heading ++ contract.stateVariables.flatMap StateVariable.recorded ++
    contract.functions.flatMap ContractFunction.recorded

/-- What a contract records stands in the lexemes. -/
structure RecordedIn (contract : Contract) (lexemes : List Lexeme) : Prop where
  stateVariables :
    (contract.heading ++ contract.stateVariables.flatMap StateVariable.recorded).Sublist lexemes
  functions :
    (contract.heading ++ contract.functions.flatMap ContractFunction.recorded).Sublist lexemes
  whole : ∃ ordered : List Lexeme, ordered.Sublist lexemes ∧ ordered.Perm contract.recorded

end Contract

namespace Grammar

theorem lexeme_nameOf {lexeme : Lexeme} (identifier : lexeme.kind = .identifier) :
    (nameOf lexeme).lexeme = lexeme := by
  simp [nameOf, Ident.lexeme, ← identifier]

theorem filterMap_lexeme?_flatMap (expressions : List Expression) :
    (expressions.flatMap Expression.signs).filterMap Sign.lexeme? =
      expressions.flatMap Expression.recorded := by
  induction expressions with
  | nil => rfl
  | cons first others ih => simp [Expression.recorded, ih]

/-- The name of a state variable is the last lexeme of its header. -/
theorem name_of_readHeader {type : String} {visibility : Option Visibility} {isConstant : Bool}
    {lexemes rest : List Lexeme} {header : Header}
    (accepts : (readHeader type visibility isConstant lexemes).Accepts header rest) :
    ∃ words name, lexemes = words ++ name :: rest ∧ name.kind = .identifier ∧
      nameOf name = header.name := by
  induction lexemes generalizing visibility isConstant with
  | nil => simp [readHeader] at accepts
  | cons first behind ih =>
      have pass : ∀ {visibility isConstant},
          (readHeader type visibility isConstant behind).relax.Accepts header rest →
            ∃ words name, first :: behind = words ++ name :: rest ∧ name.kind = .identifier ∧
              nameOf name = header.name := by
        intro visibility isConstant accepts
        obtain ⟨words, name, rfl, found⟩ := ih (Outcome.accepts_relax.mp accepts)
        exact ⟨first :: words, name, rfl, found⟩
      rw [readHeader] at accepts
      split at accepts
      · next identifier =>
          split at accepts
          · exact pass accepts
          · split at accepts
            · exact pass accepts
            · obtain ⟨rfl, rfl⟩ := Outcome.accepts_take.mp accepts
              exact ⟨[], first, rfl, identifier, rfl⟩
      · exact pass accepts

theorem ReadsVariable.recorded {type : Lexeme} {lexemes rest : List Lexeme}
    {declaration : StateVariable} (reads : ReadsVariable (nameOf type) lexemes declaration rest)
    (identifier : type.kind = .identifier)
    (faithful : ∀ lexeme ∈ lexemes, lexeme.Faithful) :
    ∃ taken, lexemes = taken ++ rest ∧ declaration.recorded.Sublist (type :: taken) := by
  cases reads with
  | @intro assign stop lexemes inside rest header value accepts _ reads _ =>
      obtain ⟨words, name, rfl, isName, same⟩ := name_of_readHeader accepts
      obtain ⟨taken, rfl, spelled⟩ :=
        reads.spelled fun lexeme member => faithful lexeme (by simp [member])
      refine ⟨words ++ name :: assign :: (taken ++ [stop]), by simp, ?_⟩
      have values : value.recorded.Sublist taken := by
        simpa [Expression.recorded] using spelled.sublist
      simp only [StateVariable.recorded, lexeme_nameOf identifier, ← same, lexeme_nameOf isName]
      refine .cons_cons _ (.trans ?_ (List.sublist_append_right words _))
      exact .cons_cons _ (.cons _ (values.trans (List.sublist_append_left _ _)))

theorem ReadsFunction.recorded {lexemes rest : List Lexeme} {function : ContractFunction}
    (reads : ReadsFunction lexemes function rest)
    (faithful : ∀ lexeme ∈ lexemes, lexeme.Faithful) :
    ∃ taken, lexemes = taken ++ rest ∧ function.recorded.Sublist taken := by
  cases reads with
  | @intro name opening closing brace words inside rest visibility body isName _ _ _ _ reads =>
      obtain ⟨taken, after, rfl, spelled, ends⟩ :=
        reads.spelled fun lexeme member => faithful lexeme (by simp [member])
      have bodies : (body.flatMap Expression.recorded).Sublist taken := by
        rw [← filterMap_lexeme?_flatMap]
        exact spelled.sublist
      have found : (⟨nameOf name, visibility, body⟩ : ContractFunction).recorded.Sublist
          (name :: opening :: closing :: (words ++ brace :: taken)) := by
        simp only [ContractFunction.recorded, lexeme_nameOf isName]
        refine .cons_cons _ (.cons _ (.cons _ ?_))
        exact (bodies.cons _).trans (List.sublist_append_right words _)
      rcases ends with ⟨rfl, rfl⟩ | ⟨last, _, rfl⟩
      · exact ⟨_, by simp, found⟩
      · exact ⟨name :: opening :: closing :: (words ++ brace :: (taken ++ [last])), by simp,
          found.trans (by simp)⟩

/-- A function is read from the word on that announces it, or from the lexeme behind. -/
theorem exists_append_fromName (keyword : Lexeme) (lexemes : List Lexeme) :
    ∃ skipped, keyword :: lexemes = skipped ++ fromName keyword lexemes := by
  unfold fromName
  split
  · exact ⟨[], rfl⟩
  · exact ⟨[keyword], rfl⟩

theorem ReadsFunction.recorded_fromName {keyword : Lexeme} {lexemes rest : List Lexeme}
    {function : ContractFunction} (reads : ReadsFunction (fromName keyword lexemes) function rest)
    (faithful : ∀ lexeme ∈ keyword :: lexemes, lexeme.Faithful) :
    ∃ taken, keyword :: lexemes = taken ++ rest ∧ function.recorded.Sublist taken := by
  obtain ⟨skipped, whole⟩ := exists_append_fromName keyword lexemes
  rw [whole] at faithful ⊢
  obtain ⟨taken, whole, found⟩ :=
    reads.recorded fun lexeme member => faithful lexeme (by simp [member])
  exact ⟨skipped ++ taken, by rw [whole, List.append_assoc],
    found.trans (List.sublist_append_right _ _)⟩

/-- Members record lexemes in the order in which they are read. -/
theorem ReadsMembers.recorded {lexemes rest : List Lexeme} {members : List Member}
    (reads : ReadsMembers lexemes members rest)
    (faithful : ∀ lexeme ∈ lexemes, lexeme.Faithful) :
    ∃ taken, lexemes = taken ++ rest ∧ (members.flatMap Member.recorded).Sublist taken := by
  induction reads with
  | atEnd => exact ⟨[], rfl, .slnil⟩
  | @closed closing rest _ => exact ⟨[closing], rfl, List.nil_sublist _⟩
  | @function keyword lexemes middle rest function members announces reads _ ih =>
      obtain ⟨front, whole, found⟩ := reads.recorded_fromName faithful
      rw [whole] at faithful ⊢
      obtain ⟨back, rfl, others⟩ := ih fun lexeme member => faithful lexeme (by simp [member])
      exact ⟨front ++ back, by simp, by simpa using found.append others⟩
  | @stateVariable type lexemes middle rest declaration members identifier _ reads _ ih =>
      obtain ⟨front, rfl, found⟩ :=
        reads.recorded identifier fun lexeme member => faithful lexeme (by simp [member])
      obtain ⟨back, rfl, others⟩ := ih fun lexeme member => faithful lexeme (by simp [member])
      exact ⟨type :: front ++ back, by simp, by simpa using found.append others⟩
  | @stray lexeme _ _ _ _ _ _ ih =>
      obtain ⟨taken, rfl, found⟩ := ih fun lexeme member => faithful lexeme (by simp [member])
      exact ⟨lexeme :: taken, rfl, found.cons _⟩

theorem ReadsBases.recorded {lexemes rest : List Lexeme} {bases : List Ident}
    (reads : ReadsBases lexemes bases rest) :
    ∃ taken, lexemes = taken ++ rest ∧ (bases.map Ident.lexeme).Sublist taken := by
  induction reads with
  | @last name rest identifier _ =>
      exact ⟨[name], rfl, by simp [lexeme_nameOf identifier]⟩
  | @more name comma lexemes rest others identifier _ _ ih =>
      obtain ⟨taken, rfl, found⟩ := ih
      refine ⟨name :: comma :: taken, rfl, ?_⟩
      simpa [lexeme_nameOf identifier] using found.cons comma

theorem ReadsInheritance.recorded {lexemes rest : List Lexeme} {bases : List Ident}
    (reads : ReadsInheritance lexemes bases rest) :
    ∃ taken, lexemes = taken ++ rest ∧ (bases.map Ident.lexeme).Sublist taken := by
  cases reads with
  | none _ => exact ⟨[], rfl, .slnil⟩
  | @some keyword _ _ _ _ reads =>
      obtain ⟨taken, rfl, found⟩ := reads.recorded
      exact ⟨keyword :: taken, rfl, found.cons _⟩

theorem recorded_stateVariables_sublist (members : List Member) :
    ((members.filterMap Member.stateVariable?).flatMap StateVariable.recorded).Sublist
      (members.flatMap Member.recorded) := by
  induction members with
  | nil => exact .slnil
  | cons member members ih =>
      cases member with
      | stateVariable declaration => simpa [List.filterMap_cons] using ih
      | function routine =>
          simpa [List.filterMap_cons] using ih.trans (List.sublist_append_right _ _)

theorem recorded_functions_sublist (members : List Member) :
    ((members.filterMap Member.function?).flatMap ContractFunction.recorded).Sublist
      (members.flatMap Member.recorded) := by
  induction members with
  | nil => exact .slnil
  | cons member members ih =>
      cases member with
      | stateVariable declaration =>
          simpa [List.filterMap_cons] using ih.trans (List.sublist_append_right _ _)
      | function routine => simpa [List.filterMap_cons] using ih

/-- Sorting the members into state variables and functions only rearranges what they record. -/
theorem recorded_members_perm (members : List Member) :
    (members.flatMap Member.recorded).Perm
      ((members.filterMap Member.stateVariable?).flatMap StateVariable.recorded ++
        (members.filterMap Member.function?).flatMap ContractFunction.recorded) := by
  induction members with
  | nil => exact .refl _
  | cons member members ih =>
      cases member with
      | stateVariable declaration =>
          simpa [List.filterMap_cons] using ih.append_left declaration.recorded
      | function routine =>
          have moved := (ih.append_left routine.recorded).trans (List.perm_append_comm_assoc _ _ _)
          simpa [List.filterMap_cons] using moved

theorem ReadsContract.recorded {lexemes rest : List Lexeme} {contract : Contract}
    (reads : ReadsContract lexemes contract rest)
    (faithful : ∀ lexeme ∈ lexemes, lexeme.Faithful) :
    ∃ taken, lexemes = taken ++ rest ∧ contract.RecordedIn taken := by
  cases reads with
  | @intro name brace lexemes inside rest bases members identifier inherits _ reads =>
      obtain ⟨front, rfl, basesFound⟩ := inherits.recorded
      obtain ⟨back, rfl, membersFound⟩ :=
        reads.recorded fun lexeme member => faithful lexeme (by simp [member])
      have headingFound : (contractOf (nameOf name) bases members).heading.Sublist
          (name :: front) := by
        simpa [Contract.heading, contractOf, lexeme_nameOf identifier] using basesFound
      have behind := membersFound.cons brace
      refine ⟨name :: front ++ brace :: back, by simp, ?_, ?_, _,
        headingFound.append behind, ?_⟩
      · exact headingFound.append ((recorded_stateVariables_sublist members).trans behind)
      · exact headingFound.append ((recorded_functions_sublist members).trans behind)
      · rw [Contract.recorded, List.append_assoc]
        exact (recorded_members_perm members).append_left _

end Grammar

theorem Contract.RecordedIn.mono {contract : Contract} {lexemes larger : List Lexeme}
    (found : contract.RecordedIn lexemes) (within : lexemes.Sublist larger) :
    contract.RecordedIn larger := by
  obtain ⟨ordered, inside, rearranged⟩ := found.whole
  exact ⟨found.stateVariables.trans within, found.functions.trans within,
    ordered, inside.trans within, rearranged⟩

/-- What contracts record stands in the lexemes. -/
structure ContractsRecordedIn (contracts : List Contract) (lexemes : List Lexeme) : Prop where
  each : ∀ contract ∈ contracts, contract.RecordedIn lexemes
  whole : ∃ ordered : List Lexeme, ordered.Sublist lexemes ∧
    ordered.Perm (contracts.flatMap Contract.recorded)

namespace ContractsRecordedIn

variable {contracts : List Contract} {lexemes : List Lexeme}

theorem nil : ContractsRecordedIn [] lexemes :=
  ⟨by simp, [], List.nil_sublist _, .refl _⟩

theorem cons {contract : Contract} {front : List Lexeme} (first : contract.RecordedIn front)
    (others : ContractsRecordedIn contracts lexemes) :
    ContractsRecordedIn (contract :: contracts) (front ++ lexemes) := by
  obtain ⟨ordered, inside, rearranged⟩ := first.whole
  obtain ⟨behind, insideBehind, rearrangedBehind⟩ := others.whole
  refine ⟨?_, ordered ++ behind, inside.append insideBehind, ?_⟩
  · intro other member
    rcases List.mem_cons.mp member with rfl | member
    · exact first.mono (List.sublist_append_left _ _)
    · exact (others.each other member).mono (List.sublist_append_right _ _)
  · rw [List.flatMap_cons]
    exact rearranged.append rearrangedBehind

theorem mono {larger : List Lexeme} (found : ContractsRecordedIn contracts lexemes)
    (within : lexemes.Sublist larger) : ContractsRecordedIn contracts larger := by
  obtain ⟨ordered, inside, rearranged⟩ := found.whole
  exact ⟨fun contract member => (found.each contract member).mono within,
    ordered, inside.trans within, rearranged⟩

theorem subset (found : ContractsRecordedIn contracts lexemes) :
    contracts.flatMap Contract.recorded ⊆ lexemes := by
  obtain ⟨_, inside, rearranged⟩ := found.whole
  intro lexeme member
  exact inside.subset (rearranged.mem_iff.mpr member)

theorem nodup (found : ContractsRecordedIn contracts lexemes)
    (ordered : lexemes.Pairwise (·.pos < ·.pos)) :
    ((contracts.flatMap Contract.recorded).map Lexeme.pos).Nodup := by
  obtain ⟨taken, inside, rearranged⟩ := found.whole
  have distinct : (taken.map Lexeme.pos).Nodup :=
    List.pairwise_map.mpr ((ordered.sublist inside).imp Nat.ne_of_lt)
  exact (rearranged.map Lexeme.pos).nodup_iff.mp distinct

end ContractsRecordedIn

namespace Grammar

inductive Item.RecordedIn (lexemes : List Lexeme) : Item → Prop where
  | pragma {pragma : Pragma} (named : pragma.name.lexeme ∈ lexemes) :
      RecordedIn lexemes (.pragma pragma)
  | importing {item : Import} : RecordedIn lexemes (.importing item)
  | contract {contract : Contract} (found : contract.RecordedIn lexemes) :
      RecordedIn lexemes (.contract contract)

/-- Every item records lexemes of a passage of its own, one passage behind the other. -/
theorem ReadsItems.passages {lexemes : List Lexeme} {items : List Item}
    (reads : ReadsItems lexemes items) (faithful : ∀ lexeme ∈ lexemes, lexeme.Faithful) :
    ∃ passages : List (List Lexeme), passages.flatten.Sublist lexemes ∧
      List.Forall₂ Item.RecordedIn passages items := by
  induction reads with
  | atEnd => exact ⟨[], .slnil, .nil⟩
  | @pragma keyword lexemes rest pragma items _ reads _ ih =>
      cases reads with
      | @intro name stop values _ identifier _ _ =>
          obtain ⟨passages, inside, recorded⟩ :=
            ih fun lexeme member => faithful lexeme (by simp [member])
          have behind := (inside.cons stop).trans (List.sublist_append_right values _)
          refine ⟨[name] :: passages, (behind.cons_cons name).cons keyword, .cons ?_ recorded⟩
          exact .pragma (by simp [lexeme_nameOf identifier])
  | @importing keyword path lexemes items _ _ ih =>
      obtain ⟨passages, inside, recorded⟩ :=
        ih fun lexeme member => faithful lexeme (by simp [member])
      exact ⟨[] :: passages, (inside.cons path).cons keyword, .cons .importing recorded⟩
  | @contract keyword lexemes rest contract items _ reads _ ih =>
      obtain ⟨taken, rfl, found⟩ :=
        reads.recorded fun lexeme member => faithful lexeme (by simp [member])
      obtain ⟨passages, inside, recorded⟩ :=
        ih fun lexeme member => faithful lexeme (by simp [member])
      refine ⟨taken :: passages, ?_, .cons (.contract found) recorded⟩
      rw [List.flatten_cons]
      exact (inside.append_left taken).cons keyword
  | @stray lexeme lexemes items _ _ _ _ ih =>
      obtain ⟨passages, inside, recorded⟩ :=
        ih fun other member => faithful other (by simp [member])
      exact ⟨passages, inside.cons lexeme, recorded⟩

theorem contractsRecordedIn_flatten {passages : List (List Lexeme)} {items : List Item}
    (recorded : List.Forall₂ Item.RecordedIn passages items) :
    ContractsRecordedIn (items.filterMap Item.contract?) passages.flatten := by
  induction recorded with
  | nil => exact .nil
  | cons first _ ih =>
      cases first with
      | pragma _ => exact ih.mono (List.sublist_append_right _ _)
      | importing => exact ih.mono (List.sublist_append_right _ _)
      | contract found => exact .cons found ih

end Grammar

/-- The contracts that a text states record lexemes of the text. -/
theorem recorded_of_parse {text : String} {program : Program}
    (parsed : (parse text).1 = .ok program) :
    ContractsRecordedIn program.contracts (lexemesOf text) := by
  obtain ⟨items, reads, rfl⟩ := parse_eq_ok_iff.mp parsed
  obtain ⟨passages, inside, recorded⟩ := reads.passages faithful_of_mem_lexemesFrom
  exact (Grammar.contractsRecordedIn_flatten recorded).mono inside

end ContractLens
