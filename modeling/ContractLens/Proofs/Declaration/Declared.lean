import ContractLens.Proofs.Declaration.Answer

/-!
# Declared names

A name is declared by a contract, by a member of a contract or by an assignment.
Every answer names such a declaration, and the declaration is an identifier of
the text that spells the name that was asked for.  Which of the declarations of a
name counts can be told from the declaration, wherever the question was put.
-/

namespace ContractLens

/-- The identifier is one of those that declare their names. -/
inductive Program.Declares (program : Program) : Ident → Prop where
  | contract {contract : Contract} (inside : contract ∈ program.contracts) :
      program.Declares contract.name
  | function {contract : Contract} {function : ContractFunction}
      (inside : contract ∈ program.contracts) (member : function ∈ contract.functions) :
      program.Declares function.name
  | stateVariable {contract : Contract} {declaration : StateVariable}
      (inside : contract ∈ program.contracts) (member : declaration ∈ contract.stateVariables) :
      program.Declares declaration.name
  | initialiser {contract : Contract} {name : Ident} (inside : contract ∈ program.contracts)
      (assigned : name ∈ contract.assigned) : program.Declares name
  | body {contract : Contract} {function : ContractFunction} {name : Ident}
      (inside : contract ∈ program.contracts) (member : function ∈ contract.functions)
      (assigned : name ∈ function.assigned) : program.Declares name

/-- The part of a program that a site names is there. -/
def Site.Within (program : Program) : Site → Prop
  | base => True
  | initialiser contract => contract ∈ program.contracts
  | body contract function => contract ∈ program.contracts ∧ function ∈ contract.functions

theorem Reference.within {program : Program} {reference : Reference}
    (member : reference ∈ program.references) : reference.site.Within program := by
  obtain ⟨contract, inside, member⟩ := List.mem_flatMap.mp member
  simp only [Contract.references, List.mem_append, List.mem_map, List.mem_flatMap] at member
  rcases member with
    ⟨base, _, rfl⟩ | ⟨occurrence, _, rfl⟩ | ⟨function, isFunction, occurrence, _, rfl⟩
  · trivial
  · exact inside
  · exact ⟨inside, isFunction⟩

/-! ## Names that count -/

/--
The identifier counts as the declaration of its name: as the last contract or member
of the name, or else as the first assignment to it, in the state variables or in a body.
-/
inductive Program.Counts (program : Program) (ident : Ident) : Prop where
  | contract (last : lastNamed? ident.name (program.contracts.map Contract.name) = some ident)
  | member {contract : Contract} (inside : contract ∈ program.contracts)
      (isMember : contract.member? ident.name = some ident)
  | initialiser {contract : Contract} (inside : contract ∈ program.contracts)
      (noMember : contract.member? ident.name = none)
      (noContract : lastNamed? ident.name (program.contracts.map Contract.name) = none)
      (first : firstNamed? ident.name
        (contract.assigned.filter fun other => other.pos ≤ ident.pos) = some ident)
  | body {contract : Contract} {function : ContractFunction}
      (inside : contract ∈ program.contracts) (isFunction : function ∈ contract.functions)
      (noMember : contract.member? ident.name = none)
      (noContract : lastNamed? ident.name (program.contracts.map Contract.name) = none)
      (notBefore : firstNamed? ident.name contract.assigned = none)
      (first : firstNamed? ident.name
        (function.assigned.filter fun other => other.pos ≤ ident.pos) = some ident)

theorem Program.Counts.declares {program : Program} {ident : Ident}
    (counts : program.Counts ident) : program.Declares ident := by
  cases counts with
  | contract last =>
      obtain ⟨listed, _⟩ := of_lastNamed?_eq_some last
      obtain ⟨contract, inside, rfl⟩ := List.mem_map.mp listed
      exact .contract inside
  | member inside isMember =>
      rcases Option.or_eq_some_iff.mp isMember with isFunction | ⟨_, isVariable⟩
      · obtain ⟨listed, _⟩ := of_lastNamed?_eq_some isFunction
        obtain ⟨function, member, rfl⟩ := List.mem_map.mp listed
        exact .function inside member
      · obtain ⟨listed, _⟩ := of_lastNamed?_eq_some isVariable
        obtain ⟨declaration, member, rfl⟩ := List.mem_map.mp listed
        exact .stateVariable inside member
  | initialiser inside _ _ first =>
      obtain ⟨assigned, _⟩ := of_firstNamed?_eq_some first
      exact .initialiser inside (List.mem_of_mem_filter assigned)
  | body inside isFunction _ _ _ first =>
      obtain ⟨assigned, _⟩ := of_firstNamed?_eq_some first
      exact .body inside isFunction (List.mem_of_mem_filter assigned)

theorem Contract.name_of_member? {contract : Contract} {name : String} {found : Ident}
    (isMember : contract.member? name = some found) : found.name = name := by
  rcases Option.or_eq_some_iff.mp isMember with isFunction | ⟨_, isVariable⟩
  · exact (of_lastNamed?_eq_some isFunction).2
  · exact (of_lastNamed?_eq_some isVariable).2

theorem Reference.counts_of_declaration? {program : Program} {reference : Reference}
    (member : reference ∈ program.references) {found : Ident}
    (declared : reference.declaration? program.contracts = some found) :
    found.name = reference.name.name ∧ program.Counts found := by
  have inside := reference.within member
  obtain ⟨site, name, pos⟩ := reference
  cases site with
  | base =>
      obtain ⟨_, rfl⟩ := of_lastNamed?_eq_some declared
      exact ⟨rfl, .contract declared⟩
  | initialiser contract =>
      rcases Option.or_eq_some_iff.mp declared with isMember | ⟨noMember, declared⟩
      · obtain rfl := Contract.name_of_member? isMember
        exact ⟨rfl, .member inside isMember⟩
      rcases Option.or_eq_some_iff.mp declared with last | ⟨noContract, first⟩
      · obtain ⟨_, rfl⟩ := of_lastNamed?_eq_some last
        exact ⟨rfl, .contract last⟩
      · obtain ⟨_, rfl⟩ := of_firstNamed?_eq_some first
        exact ⟨rfl, .initialiser inside noMember noContract (firstNamed?_upTo first)⟩
  | body contract function =>
      rcases Option.or_eq_some_iff.mp declared with isMember | ⟨noMember, declared⟩
      · obtain rfl := Contract.name_of_member? isMember
        exact ⟨rfl, .member inside.1 isMember⟩
      rcases Option.or_eq_some_iff.mp declared with last | ⟨noContract, declared⟩
      · obtain ⟨_, rfl⟩ := of_lastNamed?_eq_some last
        exact ⟨rfl, .contract last⟩
      rcases Option.or_eq_some_iff.mp declared with first | ⟨notBefore, first⟩
      · -- A body sees all assignments in the state variables; up to itself it is the first, too.
        obtain ⟨_, rfl⟩ := of_firstNamed?_eq_some first
        have upTo := firstNamed?_filter (fun other => other.pos ≤ found.pos) first (by simp)
        exact ⟨rfl, .initialiser inside.1 noMember noContract upTo⟩
      · obtain ⟨_, rfl⟩ := of_firstNamed?_eq_some first
        exact ⟨rfl, .body inside.1 inside.2 noMember noContract notBefore
          (firstNamed?_upTo first)⟩

theorem Reference.of_declaration?_eq_some {program : Program} {reference : Reference}
    (member : reference ∈ program.references) {found : Ident}
    (declared : reference.declaration? program.contracts = some found) :
    found.name = reference.name.name ∧ program.Declares found := by
  obtain ⟨same, counts⟩ := counts_of_declaration? member declared
  exact ⟨same, counts.declares⟩

/-- A name without a declaration is not that of a contract. -/
theorem Reference.no_contract_of_eq_none {contracts : List Contract} {reference : Reference}
    (missing : reference.declaration? contracts = none) :
    ∀ contract ∈ contracts, contract.name.name ≠ reference.name.name := by
  have unknown : lastNamed? reference.name.name (contracts.map Contract.name) = none := by
    unfold declaration? at missing
    cases place : reference.site with
    | base => simpa [place] using missing
    | initialiser contract =>
        simp only [place, Option.or_eq_none_iff] at missing
        exact missing.2.1
    | body contract function =>
        simp only [place, Option.or_eq_none_iff] at missing
        exact missing.2.1
  intro contract inside
  exact lastNamed?_eq_none.mp unknown contract.name (List.mem_map_of_mem inside)

/-! ## Lexemes of names -/

theorem Contract.lexeme_mem_recorded {contract : Contract} {reference : Reference}
    (member : reference ∈ contract.references) :
    reference.name.lexeme ∈ contract.recorded := by
  apply contract.references_sublist.subset
  exact List.mem_map.mpr ⟨reference, member, rfl⟩

theorem Contract.references_subset {program : Program} {contract : Contract}
    (inside : contract ∈ program.contracts) : contract.references ⊆ program.references :=
  fun _ standing => List.mem_flatMap.mpr ⟨contract, inside, standing⟩

theorem Contract.base_mem_references {contract : Contract} {base : Ident}
    (member : base ∈ contract.bases) :
    (⟨.base, base⟩ : Reference) ∈ contract.references := by
  simp only [references, List.mem_append, List.mem_map]
  exact .inl ⟨base, member, rfl⟩

theorem Contract.initialiser_mem_references {contract : Contract} {occurrence : Occurrence}
    (member : occurrence ∈ contract.initialOccurrences) :
    (⟨.initialiser contract, occurrence.name⟩ : Reference) ∈ contract.references := by
  simp only [references, List.mem_append, List.mem_map]
  exact .inr (.inl ⟨occurrence, member, rfl⟩)

theorem Contract.body_mem_references {contract : Contract} {function : ContractFunction}
    {occurrence : Occurrence} (isFunction : function ∈ contract.functions)
    (member : occurrence ∈ function.occurrences) :
    (⟨.body contract function, occurrence.name⟩ : Reference) ∈ contract.references := by
  simp only [references, List.mem_append, List.mem_map, List.mem_flatMap]
  exact .inr (.inr ⟨function, isFunction, occurrence, member, rfl⟩)

theorem Contract.assigned_mem_references {contract : Contract} {name : Ident}
    (assigned : name ∈ contract.assigned) :
    (⟨.initialiser contract, name⟩ : Reference) ∈ contract.references := by
  obtain ⟨occurrence, member, _, rfl⟩ := mem_assignedNames.mp assigned
  exact contract.initialiser_mem_references member

theorem Contract.assigned_body_mem_references {contract : Contract} {function : ContractFunction}
    {name : Ident} (isFunction : function ∈ contract.functions)
    (assigned : name ∈ function.assigned) :
    (⟨.body contract function, name⟩ : Reference) ∈ contract.references := by
  obtain ⟨occurrence, member, _, rfl⟩ := mem_assignedNames.mp assigned
  exact contract.body_mem_references isFunction member

theorem Program.Declares.mem_recorded {program : Program} {ident : Ident}
    (declares : program.Declares ident) :
    ident.lexeme ∈ program.contracts.flatMap Contract.recorded := by
  rw [List.mem_flatMap]
  cases declares with
  | @contract contract inside =>
      refine ⟨contract, inside, ?_⟩
      simp [Contract.recorded, Contract.heading]
  | @function contract function inside member =>
      refine ⟨contract, inside, ?_⟩
      refine List.mem_append_right _ (List.mem_flatMap.mpr ⟨function, member, ?_⟩)
      simp [ContractFunction.recorded]
  | @stateVariable contract declaration inside member =>
      refine ⟨contract, inside, ?_⟩
      refine List.mem_append_left _ (List.mem_append_right _ ?_)
      refine List.mem_flatMap.mpr ⟨declaration, member, ?_⟩
      simp [StateVariable.recorded]
  | @initialiser contract _ inside assigned =>
      have standing := contract.assigned_mem_references assigned
      exact ⟨contract, inside, contract.lexeme_mem_recorded standing⟩
  | @body contract function _ inside member assigned =>
      have standing := contract.assigned_body_mem_references member assigned
      exact ⟨contract, inside, contract.lexeme_mem_recorded standing⟩

theorem Program.Declares.mem_lexemesOf {text : String} {program : Program} {ident : Ident}
    (declares : program.Declares ident) (parsed : (parse text).1 = .ok program) :
    ident.lexeme ∈ lexemesOf text :=
  (recorded_of_parse parsed).subset declares.mem_recorded

theorem Reference.mem_lexemesOf {text : String} {program : Program} {reference : Reference}
    (member : reference ∈ program.references) (parsed : (parse text).1 = .ok program) :
    reference.name.lexeme ∈ lexemesOf text := by
  obtain ⟨contract, inside, standing⟩ := List.mem_flatMap.mp member
  apply (recorded_of_parse parsed).subset
  exact List.mem_flatMap.mpr ⟨contract, inside, contract.lexeme_mem_recorded standing⟩

end ContractLens
