import ContractLens.Proofs.Declaration.Declared
import Mathlib.Data.List.Perm.Basic

/-!
# Declarations that declare themselves

A name is answered with its declaration.  If that is the name of a contract or of a
function, it is not asked for where it stands.  Every other declaration is asked for
as well, and it is its own: a state variable that counts as a member still does so,
and the first assignment to a name is still the first one up to itself.
-/

namespace ContractLens

/-! ## Names that are not asked for -/

/-- The names under which a contract and its functions are declared. -/
def Contract.titles (contract : Contract) : List Ident :=
  contract.name :: contract.functions.map ContractFunction.name

def Program.titles (program : Program) : List Ident :=
  program.contracts.flatMap Contract.titles

theorem Program.declares_of_mem_titles {program : Program} {title : Ident}
    (member : title ∈ program.titles) : program.Declares title := by
  obtain ⟨contract, inside, listed⟩ := List.mem_flatMap.mp member
  rcases List.mem_cons.mp listed with rfl | listed
  · exact .contract inside
  · obtain ⟨function, isFunction, rfl⟩ := List.mem_map.mp listed
    exact .function inside isFunction

/-- The names of a contract, those of its types apart, as they are recorded. -/
def Contract.names (contract : Contract) : List Ident :=
  contract.name :: contract.bases ++ contract.initialOccurrences.map Occurrence.name ++
    contract.functions.flatMap fun function =>
      function.name :: function.occurrences.map Occurrence.name

theorem ContractFunction.names_sublist (function : ContractFunction) :
    ((function.name :: function.occurrences.map Occurrence.name).map Ident.lexeme).Sublist
      function.recorded := by
  rw [occurrences, List.map_cons, List.map_map, List.map_flatMap]
  apply List.Sublist.cons_cons
  exact .flatMap_right _ fun expression _ => expression.occurrences_sublist

theorem Contract.names_sublist (contract : Contract) :
    (contract.names.map Ident.lexeme).Sublist contract.recorded := by
  have initial := contract.initialOccurrences_sublist
  have bodies : (contract.functions.flatMap fun function =>
      (function.name :: function.occurrences.map Occurrence.name).map Ident.lexeme).Sublist
        (contract.functions.flatMap ContractFunction.recorded) :=
    .flatMap_right _ fun function _ => function.names_sublist
  simp only [names, List.map_append, List.map_flatMap, List.map_map]
  apply List.Sublist.append _ bodies
  exact .append (.refl _) initial

/-- The names of a contract are those that are not asked for and those that are. -/
theorem Contract.names_perm (contract : Contract) :
    contract.names.Perm (contract.titles ++ contract.references.map Reference.name) := by
  -- The names of the functions move from the front of their bodies to that of the contract.
  have bodies := List.map_append_flatMap_perm contract.functions ContractFunction.name
    fun function => function.occurrences.map Occurrence.name
  have moved := (bodies.symm.append_left
    (contract.bases ++ contract.initialOccurrences.map Occurrence.name)).trans
      (List.perm_append_comm_assoc _ _ _)
  simpa [names, titles, references, List.map_flatMap, Function.comp_def] using moved

theorem Program.names_nodup {program : Program} {lexemes : List Lexeme}
    (found : ContractsRecordedIn program.contracts lexemes)
    (ordered : lexemes.Pairwise (·.pos < ·.pos)) :
    ((program.titles ++ program.references.map Reference.name).map Ident.pos).Nodup := by
  have inside : ((program.contracts.flatMap Contract.names).map Ident.lexeme).Sublist
      (program.contracts.flatMap Contract.recorded) := by
    rw [List.map_flatMap]
    exact .flatMap_right _ fun contract _ => contract.names_sublist
  have places := (inside.map Lexeme.pos).nodup (found.nodup ordered)
  rw [List.map_map] at places
  have sorted : (program.contracts.flatMap Contract.names).Perm
      (program.titles ++ program.references.map Reference.name) := by
    rw [titles, references, List.map_flatMap]
    refine .trans ?_ (List.flatMap_append_perm _ _ _).symm
    exact .flatMap_left _ fun contract _ => contract.names_perm
  exact (sorted.map Ident.pos).nodup_iff.mp places

/-- Nothing is asked for where a contract or a function has its name. -/
theorem Program.answers_title {text : String} {program : Program}
    (parsed : (parse text).1 = .ok program) {title : Ident} (member : title ∈ program.titles) :
    program.Answers title.pos (.error .unknownPosition) := by
  have distinct := program.names_nodup (recorded_of_parse parsed)
    (pairwise_pos_lexemesFrom 0 text.toList)
  rw [List.map_append, List.nodup_append] at distinct
  obtain ⟨_, _, apart⟩ := distinct
  apply Answers.unknown
  intro reference standing here
  have inTitles := List.mem_map_of_mem (f := Ident.pos) member
  have inReferences := List.mem_map_of_mem (f := Ident.pos)
    (List.mem_map_of_mem (f := Reference.name) standing)
  exact apart _ inTitles _ inReferences here.symm

/-! ## Names that declare themselves -/

/-- The name can be asked for where it stands, and is its own declaration. -/
def Program.DeclaresItself (program : Program) (name : Ident) : Prop :=
  ∃ site, (⟨site, name⟩ : Reference) ∈ program.references ∧
    Reference.declaration? program.contracts ⟨site, name⟩ = some name

/--
A name that counts is that of a contract or of a function, or it declares itself: a
state variable that counts as a member still does where it stands, and so does the
first assignment to a name.
-/
theorem Program.Counts.title_or_declaresItself {program : Program} {name : Ident}
    (counts : program.Counts name) : name ∈ program.titles ∨ program.DeclaresItself name := by
  cases counts with
  | contract last =>
      obtain ⟨listed, _⟩ := of_lastNamed?_eq_some last
      obtain ⟨contract, inside, rfl⟩ := List.mem_map.mp listed
      exact .inl (List.mem_flatMap.mpr ⟨contract, inside, .head _⟩)
  | @member contract inside isMember =>
      rcases Option.or_eq_some_iff.mp isMember with isFunction | ⟨_, isVariable⟩
      · obtain ⟨listed, _⟩ := of_lastNamed?_eq_some isFunction
        exact .inl (List.mem_flatMap.mpr ⟨contract, inside, .tail _ listed⟩)
      · obtain ⟨listed, _⟩ := of_lastNamed?_eq_some isVariable
        obtain ⟨declaration, isDeclaration, rfl⟩ := List.mem_map.mp listed
        have occurs : (⟨declaration.name, false⟩ : Occurrence) ∈ contract.initialOccurrences :=
          List.mem_flatMap.mpr ⟨declaration, isDeclaration, by simp [StateVariable.occurrences]⟩
        have standing := contract.initialiser_mem_references occurs
        refine .inr ⟨.initialiser contract, Contract.references_subset inside standing, ?_⟩
        simp only [Reference.declaration?, isMember, Option.some_or]
  | @initialiser contract inside noMember noContract first =>
      obtain ⟨listed, _⟩ := of_firstNamed?_eq_some first
      have standing := contract.assigned_mem_references (List.mem_of_mem_filter listed)
      refine .inr ⟨.initialiser contract, Contract.references_subset inside standing, ?_⟩
      simp only [Reference.declaration?, noMember, noContract, first, Option.none_or]
  | @body contract function inside isFunction noMember noContract notBefore first =>
      obtain ⟨listed, _⟩ := of_firstNamed?_eq_some first
      have standing :=
        contract.assigned_body_mem_references isFunction (List.mem_of_mem_filter listed)
      refine .inr ⟨.body contract function, Contract.references_subset inside standing, ?_⟩
      simp only [Reference.declaration?, noMember, noContract, notBefore, first, Option.none_or]

theorem Program.DeclaresItself.answers {program : Program} {name : Ident}
    (declaresItself : program.DeclaresItself name) : program.Answers name.pos (.ok name.pos) := by
  obtain ⟨site, standing, found⟩ := declaresItself
  exact .declared standing rfl found

theorem Program.DeclaresItself.mem_lexemesOf {text : String} {program : Program} {name : Ident}
    (declaresItself : program.DeclaresItself name) (parsed : (parse text).1 = .ok program) :
    name.lexeme ∈ lexemesOf text := by
  obtain ⟨_, standing, _⟩ := declaresItself
  exact Reference.mem_lexemesOf standing parsed

end ContractLens
