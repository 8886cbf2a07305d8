import ContractLens.Proofs.Grammar.Record
import ContractLens.Syntax.Position

/-!
# Passages

Members and contracts are read from passages of the lexemes, one behind the other.
What is found out about one of them where it is read holds as well with the other
lexemes around it, so it has to be shown for one member and for one contract only.
In the same way it has to be shown for one expression only; and behind an expression
there always stands another lexeme.
-/

namespace ContractLens

namespace Grammar

def Member.expressions : Member → List Expression
  | stateVariable declaration => [declaration.value]
  | function routine => routine.body

theorem Member.eq_of_function? {member : Member} {routine : ContractFunction}
    (is : member.function? = some routine) : member = .function routine := by
  cases member with
  | stateVariable declaration => cases is
  | function other => simpa using is

theorem Member.eq_of_stateVariable? {member : Member} {declaration : StateVariable}
    (is : member.stateVariable? = some declaration) : member = .stateVariable declaration := by
  cases member with
  | stateVariable other => simpa using is
  | function routine => cases is

section

variable {name : Ident} {bases : List Ident} {members : List Member}

theorem function_mem_of_contractOf {routine : ContractFunction}
    (inside : routine ∈ (contractOf name bases members).functions) :
    .function routine ∈ members := by
  obtain ⟨member, listed, is⟩ := List.mem_filterMap.mp inside
  rw [← Member.eq_of_function? is]
  exact listed

theorem stateVariable_mem_of_contractOf {declaration : StateVariable}
    (inside : declaration ∈ (contractOf name bases members).stateVariables) :
    .stateVariable declaration ∈ members := by
  obtain ⟨member, listed, is⟩ := List.mem_filterMap.mp inside
  rw [← Member.eq_of_stateVariable? is]
  exact listed

theorem exists_member_of_mem_expressions {expression : Expression}
    (inside : expression ∈ (contractOf name bases members).expressions) :
    ∃ member ∈ members, expression ∈ member.expressions := by
  rcases List.mem_append.mp inside with isValue | inBody
  · obtain ⟨declaration, listed, rfl⟩ := List.mem_map.mp isValue
    exact ⟨_, stateVariable_mem_of_contractOf listed, List.mem_singleton_self _⟩
  · obtain ⟨routine, listed, inBody⟩ := List.mem_flatMap.mp inBody
    exact ⟨_, function_mem_of_contractOf listed, inBody⟩

end

/-- What holds of a member where it is read, and behind anything else, holds of all members. -/
theorem ReadsMembers.forall_mem (holds : List Lexeme → Member → Prop)
    (behind : ∀ {lexemes : List Lexeme} {member : Member} (front : List Lexeme),
      holds lexemes member → holds (front ++ lexemes) member)
    (function : ∀ {lexemes rest : List Lexeme} {routine : ContractFunction},
      ReadsFunction lexemes routine rest → (∀ lexeme ∈ lexemes, lexeme.Faithful) →
        holds lexemes (.function routine))
    (stateVariable : ∀ {type : Ident} {lexemes rest : List Lexeme} {declaration : StateVariable},
      ReadsVariable type lexemes declaration rest → (∀ lexeme ∈ lexemes, lexeme.Faithful) →
        holds lexemes (.stateVariable declaration))
    {lexemes rest : List Lexeme} {members : List Member}
    (reads : ReadsMembers lexemes members rest)
    (faithful : ∀ lexeme ∈ lexemes, lexeme.Faithful) :
    ∀ member ∈ members, holds lexemes member := by
  induction reads with
  | atEnd => simp
  | closed _ => simp
  | @function keyword lexemes middle rest routine members _ reads _ ih =>
      obtain ⟨front, whole, _⟩ := reads.recorded_fromName faithful
      obtain ⟨skipped, named⟩ := exists_append_fromName keyword lexemes
      intro member inside
      rcases List.mem_cons.mp inside with rfl | inside
      · rw [named] at faithful ⊢
        exact behind skipped (function reads fun lexeme member =>
          faithful lexeme (by simp [member]))
      · rw [whole] at faithful ⊢
        exact behind front (ih (fun lexeme member => faithful lexeme (by simp [member])) member
          inside)
  | @stateVariable type lexemes middle rest declaration members identifier _ reads _ ih =>
      have first := stateVariable reads fun lexeme member => faithful lexeme (by simp [member])
      obtain ⟨front, rfl, _⟩ :=
        reads.recorded identifier fun lexeme member => faithful lexeme (by simp [member])
      intro member inside
      rcases List.mem_cons.mp inside with rfl | inside
      · exact behind [type] first
      · have others := ih fun lexeme member => faithful lexeme (by simp [member])
        exact behind (type :: front) (others member inside)
  | @stray lexeme _ _ _ _ _ _ ih =>
      intro member inside
      have others := ih fun lexeme member => faithful lexeme (by simp [member])
      exact behind [lexeme] (others member inside)

theorem ReadsItems.forall_contract (holds : List Lexeme → Contract → Prop)
    (behind : ∀ {lexemes : List Lexeme} {contract : Contract} (front : List Lexeme),
      holds lexemes contract → holds (front ++ lexemes) contract)
    (contract : ∀ {lexemes rest : List Lexeme} {contract : Contract},
      ReadsContract lexemes contract rest → (∀ lexeme ∈ lexemes, lexeme.Faithful) →
        holds lexemes contract)
    {lexemes : List Lexeme} {items : List Item} (reads : ReadsItems lexemes items)
    (faithful : ∀ lexeme ∈ lexemes, lexeme.Faithful) :
    ∀ contract ∈ items.filterMap Item.contract?, holds lexemes contract := by
  induction reads with
  | atEnd => simp
  | @pragma keyword lexemes rest pragma items _ reads _ ih =>
      intro contract inside
      cases reads with
      | @intro name stop values _ _ _ _ =>
          have others := ih fun lexeme member => faithful lexeme (by simp [member])
          have whole := behind (keyword :: name :: (values ++ [stop])) (others contract inside)
          simpa using whole
  | @importing keyword path lexemes items _ _ ih =>
      intro contract inside
      have others := ih fun lexeme member => faithful lexeme (by simp [member])
      exact behind [keyword, path] (others contract inside)
  | @contract keyword lexemes rest first items _ reads _ ih =>
      have here := contract reads fun lexeme member => faithful lexeme (by simp [member])
      obtain ⟨taken, rfl, _⟩ :=
        reads.recorded fun lexeme member => faithful lexeme (by simp [member])
      intro other inside
      rcases List.mem_cons.mp inside with rfl | inside
      · exact behind [keyword] here
      · have others := ih fun lexeme member => faithful lexeme (by simp [member])
        exact behind (keyword :: taken) (others other inside)
  | @stray lexeme lexemes items _ _ _ _ ih =>
      intro contract inside
      have others := ih fun lexeme member => faithful lexeme (by simp [member])
      exact behind [lexeme] (others contract inside)

/-! ## Expressions -/

/-- What holds of an expression where it is read in front of a lexeme, and behind anything else. -/
structure HeldWhereRead (holds : List Lexeme → Expression → Prop) : Prop where
  behind : ∀ {lexemes : List Lexeme} {expression : Expression} (front : List Lexeme),
    holds lexemes expression → holds (front ++ lexemes) expression
  read : ∀ {lexemes rest : List Lexeme} {next : Lexeme} {expression : Expression},
    Reads .expression lexemes [expression] (next :: rest) →
      (∀ lexeme ∈ lexemes, lexeme.Faithful) → holds lexemes expression

section

variable {holds : List Lexeme → Expression → Prop} (held : HeldWhereRead holds)
  {lexemes rest : List Lexeme}

include held

theorem ReadsStatement.forall_expression {statement : List Expression}
    (reads : ReadsStatement lexemes statement rest)
    (faithful : ∀ lexeme ∈ lexemes, lexeme.Faithful) :
    ∀ expression ∈ statement, holds lexemes expression := by
  induction reads with
  | last reads _ =>
      intro expression inside
      rw [List.mem_singleton.mp inside]
      exact held.read reads faithful
  | more reads _ others ih =>
      -- The next expression of the statement begins behind this one.
      obtain ⟨next, behind, rfl, _⟩ := others.opens
      have here := held.read reads faithful
      obtain ⟨taken, rfl, _⟩ := reads.spelled faithful
      intro expression inside
      rcases List.mem_cons.mp inside with rfl | inside
      · exact here
      · exact held.behind taken
          (ih (fun lexeme member => faithful lexeme (by simp [member])) expression inside)

theorem ReadsBody.forall_expression {body : List Expression}
    (reads : ReadsBody lexemes body rest) (faithful : ∀ lexeme ∈ lexemes, lexeme.Faithful) :
    ∀ expression ∈ body, holds lexemes expression := by
  induction reads with
  | atEnd => simp
  | closed _ => simp
  | @empty stop _ _ _ _ _ ih =>
      intro expression inside
      have others := ih fun lexeme member => faithful lexeme (by simp [member])
      exact held.behind [stop] (others expression inside)
  | statement reads _ ih =>
      have here := reads.forall_expression held faithful
      obtain ⟨taken, rfl, _⟩ := reads.spelled faithful
      intro expression inside
      rcases List.mem_append.mp inside with inStatement | inOthers
      · exact here expression inStatement
      · have others := ih fun lexeme member => faithful lexeme (by simp [member])
        exact held.behind taken (others expression inOthers)

theorem ReadsFunction.forall_expression {function : ContractFunction}
    (reads : ReadsFunction lexemes function rest)
    (faithful : ∀ lexeme ∈ lexemes, lexeme.Faithful) :
    ∀ expression ∈ function.body, holds lexemes expression := by
  cases reads with
  | @intro name opening closing brace words _ _ _ _ _ _ _ _ _ reads =>
      intro expression inside
      have here := reads.forall_expression held
        (fun lexeme member => faithful lexeme (by simp [member])) expression inside
      simpa using held.behind (name :: opening :: closing :: (words ++ [brace])) here

theorem ReadsVariable.holds_value {type : Ident} {declaration : StateVariable}
    (reads : ReadsVariable type lexemes declaration rest)
    (faithful : ∀ lexeme ∈ lexemes, lexeme.Faithful) : holds lexemes declaration.value := by
  cases reads with
  | @intro assign _ _ _ _ _ _ accepts _ reads _ =>
      obtain ⟨words, name, rfl, _, _⟩ := name_of_readHeader accepts
      have here := held.read reads fun lexeme member => faithful lexeme (by simp [member])
      simpa using held.behind (words ++ [name, assign]) here

theorem ReadsMembers.forall_expression {members : List Member}
    (reads : ReadsMembers lexemes members rest)
    (faithful : ∀ lexeme ∈ lexemes, lexeme.Faithful) :
    ∀ member ∈ members, ∀ expression ∈ member.expressions, holds lexemes expression := by
  apply reads.forall_mem fun lexemes member =>
    ∀ expression ∈ member.expressions, holds lexemes expression
  · intro lexemes member front here expression inside
    exact held.behind front (here expression inside)
  · intro lexemes rest function reads faithful
    exact reads.forall_expression held faithful
  · intro type lexemes rest declaration reads faithful expression inside
    rw [List.mem_singleton.mp inside]
    exact reads.holds_value held faithful
  · exact faithful

theorem ReadsContract.forall_expression {contract : Contract}
    (reads : ReadsContract lexemes contract rest)
    (faithful : ∀ lexeme ∈ lexemes, lexeme.Faithful) :
    ∀ expression ∈ contract.expressions, holds lexemes expression := by
  cases reads with
  | @intro name brace _ _ _ _ _ _ inherits _ reads =>
      obtain ⟨front, rfl, _⟩ := inherits.recorded
      have each := reads.forall_expression held
        fun lexeme member => faithful lexeme (by simp [member])
      intro expression listed
      obtain ⟨member, isMember, listed⟩ := exists_member_of_mem_expressions listed
      have here := each member isMember expression listed
      simpa using held.behind (name :: (front ++ [brace])) here

end

end Grammar

/-- What holds of expressions where they are read holds in the text of all of a program. -/
theorem forall_expression_of_parse {holds : List Lexeme → Expression → Prop}
    (held : Grammar.HeldWhereRead holds) {text : String} {program : Program}
    (parsed : (parse text).1 = .ok program) :
    ∀ contract ∈ program.contracts, ∀ expression ∈ contract.expressions,
      holds (lexemesOf text) expression := by
  obtain ⟨items, reads, rfl⟩ := parse_eq_ok_iff.mp parsed
  apply reads.forall_contract fun lexemes contract =>
    ∀ expression ∈ contract.expressions, holds lexemes expression
  · intro lexemes contract front here expression inside
    exact held.behind front (here expression inside)
  · intro lexemes rest contract reads faithful
    exact reads.forall_expression held faithful
  · exact faithful_of_mem_lexemesFrom

end ContractLens
