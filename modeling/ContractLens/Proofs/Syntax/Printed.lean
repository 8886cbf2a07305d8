import ContractLens.Proofs.Syntax.Label

/-!
# Trees from their outlines

An outline tells everything of the tree that is written in it, and that is all of the
tree but the offsets that are not printed: those of type names and of parentheses
around an expression.
-/

namespace ContractLens

/-! ## What is printed -/

/-- The expression as it is printed: parentheses around an expression have no offset. -/
def Expression.asPrinted : Expression → Expression
  | ident name => .ident name
  | literal kind text pos => .literal kind text pos
  | binary left operator pos right => .binary left.asPrinted operator pos right.asPrinted
  | call callee arguments leftParen rightParen =>
      .call callee.asPrinted (arguments.map asPrinted) leftParen rightParen
  | index base subscript => .index base.asPrinted subscript.asPrinted
  | selector base member => .selector base.asPrinted member
  | paren _ inner => .paren 0 inner.asPrinted

/-- The state variable as it is printed: its type has a name and no offset. -/
def StateVariable.asPrinted (declaration : StateVariable) : StateVariable :=
  { declaration with type := ⟨declaration.type.name, 0⟩, value := declaration.value.asPrinted }

def ContractFunction.asPrinted (function : ContractFunction) : ContractFunction :=
  { function with body := function.body.map Expression.asPrinted }

def Contract.asPrinted (contract : Contract) : Contract :=
  { contract with
    stateVariables := contract.stateVariables.map StateVariable.asPrinted
    functions := contract.functions.map ContractFunction.asPrinted }

/-! ## Only that is printed -/

@[simp] theorem Expression.outline_asPrinted (expression : Expression) :
    expression.asPrinted.outline = expression.outline := by
  induction expression with
  | ident name => rw [asPrinted]
  | literal kind text pos => rw [asPrinted]
  | binary left operator pos right leftIh rightIh => simp [asPrinted, outline, leftIh, rightIh]
  | call callee arguments leftParen rightParen calleeIh argumentsIh =>
      simpa [asPrinted, outline, calleeIh] using argumentsIh
  | index base subscript baseIh subscriptIh => simp [asPrinted, outline, baseIh, subscriptIh]
  | selector base member baseIh => simp [asPrinted, outline, baseIh]
  | paren leftParen inner innerIh => simp [asPrinted, outline, innerIh]

@[simp] theorem StateVariable.outline_asPrinted (declaration : StateVariable) :
    declaration.asPrinted.outline = declaration.outline := by
  rw [outline, outline, asPrinted, Expression.outline_asPrinted]
  rfl

@[simp] theorem ContractFunction.outline_asPrinted (function : ContractFunction) :
    function.asPrinted.outline = function.outline := by
  simp [asPrinted, outline]

@[simp] theorem Contract.outline_asPrinted (contract : Contract) :
    contract.asPrinted.outline = contract.outline := by
  have above : contract.asPrinted.stateVariables.map StateVariable.outline =
      contract.stateVariables.map StateVariable.outline := by
    simp [asPrinted]
  have below : contract.asPrinted.functions.map ContractFunction.outline =
      contract.functions.map ContractFunction.outline := by
    simp [asPrinted]
  rw [outline, outline, above, below]
  rfl

/-! ## All of that can be told -/

theorem map_eq_map_of {α β γ : Type} {shown : α → β} {kept : α → γ} {items others : List α}
    (each : ∀ item ∈ items, ∀ other ∈ others, shown item = shown other → kept item = kept other)
    (same : items.map shown = others.map shown) : items.map kept = others.map kept := by
  induction items generalizing others with
  | nil =>
      cases others with
      | nil => rfl
      | cons other others => cases same
  | cons item items ih =>
      cases others with
      | nil => cases same
      | cons other others =>
          obtain ⟨here, behind⟩ := List.cons.inj same
          have first := each item (by simp) other (by simp) here
          have rest := ih (fun item member other memberOther =>
            each item (by simp [member]) other (by simp [memberOther])) behind
          rw [List.map_cons, List.map_cons, first, rest]

/-- An outline tells an expression as far as it is printed. -/
theorem Expression.asPrinted_eq_of_outline_eq {first second : Expression}
    (same : first.outline = second.outline) : first.asPrinted = second.asPrinted := by
  induction first generalizing second with
  | ident name =>
      obtain ⟨label, _⟩ := sameLabel_of_outline_eq same
      cases label
      rfl
  | literal kind text pos =>
      obtain ⟨label, _⟩ := sameLabel_of_outline_eq same
      cases label
      rfl
  | binary left operator pos right leftIh rightIh =>
      obtain ⟨label, below⟩ := sameLabel_of_outline_eq same
      cases label
      simp only [children, List.map_cons, List.map_nil, List.cons.injEq, and_true] at below
      rw [asPrinted, asPrinted, leftIh below.1, rightIh below.2]
  | call callee arguments leftParen rightParen calleeIh argumentsIh =>
      obtain ⟨label, below⟩ := sameLabel_of_outline_eq same
      cases label
      simp only [children, List.map_cons, List.cons.injEq] at below
      have behind := map_eq_map_of (fun argument inside _ _ => argumentsIh argument inside) below.2
      rw [asPrinted, asPrinted, calleeIh below.1, behind]
  | index base subscript baseIh subscriptIh =>
      obtain ⟨label, below⟩ := sameLabel_of_outline_eq same
      cases label
      simp only [children, List.map_cons, List.map_nil, List.cons.injEq, and_true] at below
      rw [asPrinted, asPrinted, baseIh below.1, subscriptIh below.2]
  | selector base member baseIh =>
      obtain ⟨label, below⟩ := sameLabel_of_outline_eq same
      cases label
      simp only [children, List.map_cons, List.map_nil, List.cons.injEq, and_true] at below
      rw [asPrinted, asPrinted, baseIh below]
  | paren leftParen inner innerIh =>
      obtain ⟨label, below⟩ := sameLabel_of_outline_eq same
      cases label
      simp only [children, List.map_cons, List.map_nil, List.cons.injEq, and_true] at below
      rw [asPrinted, asPrinted, innerIh below]

theorem StateVariable.asPrinted_eq_of_outline_eq {first second : StateVariable}
    (types : first.type.Spaceless ∧ second.type.Spaceless)
    (names : first.name.Spaceless ∧ second.name.Spaceless)
    (same : first.outline = second.outline) : first.asPrinted = second.asPrinted := by
  obtain ⟨labels, values⟩ := Outline.node.inj same
  have placed : ∀ declaration : StateVariable, ∀ start : String,
      start ++ s!"{declaration.modifiers} @{declaration.name.pos}" =
        start ++ declaration.modifiers ++ " @" ++ toString declaration.name.pos := by
    intro declaration start
    simp [ToString.toString, String.append_assoc]
  rw [placed, placed] at labels
  obtain ⟨fronts, places⟩ := eq_of_placed labels
  have lists : first.type.name.toList ++ ' ' :: (first.name.name.toList ++ first.modifiers.toList) =
      second.type.name.toList ++ ' ' :: (second.name.name.toList ++ second.modifiers.toList) := by
    simpa [ToString.toString] using congrArg String.toList fronts
  obtain ⟨typeNames, behind⟩ := Text.eq_of_append_first lists types.1 types.2
  obtain ⟨ownNames, modifiers⟩ := eq_of_append_eq behind (Text.bne_of_not_mem names.1)
    (Text.bne_of_not_mem names.2) first.head?_modifiers second.head?_modifiers
  obtain ⟨visibilities, constants⟩ := eq_of_modifiers (String.toList_injective modifiers)
  have printed := Expression.asPrinted_eq_of_outline_eq (List.cons.inj values).1
  rw [asPrinted, asPrinted, printed, visibilities, constants, String.toList_injective typeNames,
    Ident.ext (String.toList_injective ownNames) places]

theorem ContractFunction.asPrinted_eq_of_outline_eq {first second : ContractFunction}
    (names : first.name.Spaceless ∧ second.name.Spaceless)
    (same : first.outline = second.outline) : first.asPrinted = second.asPrinted := by
  obtain ⟨labels, bodies⟩ := Outline.node.inj same
  obtain ⟨fronts, places⟩ := eq_of_placed labels
  have lists : first.name.name.toList ++ ' ' :: first.visibility.word.toList =
      second.name.name.toList ++ ' ' :: second.visibility.word.toList := by
    simpa [ToString.toString] using congrArg String.toList fronts
  obtain ⟨ownNames, words⟩ := Text.eq_of_append_first lists names.1 names.2
  have visibilities : first.visibility = second.visibility := by
    apply Option.some.inj
    rw [← Visibility.ofWord?_word, String.toList_injective words, Visibility.ofWord?_word]
  have printed := map_eq_map_of
    (fun _ _ _ _ => Expression.asPrinted_eq_of_outline_eq) bodies
  rw [asPrinted, asPrinted, printed, visibilities,
    Ident.ext (String.toList_injective ownNames) places]

namespace Contract

/-- All names of a contract and of its members. -/
def allNames (contract : Contract) : List Ident :=
  contract.name :: contract.bases ++
    contract.stateVariables.flatMap (fun declaration => [declaration.type, declaration.name]) ++
    contract.functions.map ContractFunction.name

theorem mem_allNames_of_stateVariable {contract : Contract} {declaration : StateVariable}
    (inside : declaration ∈ contract.stateVariables) :
    declaration.type ∈ contract.allNames ∧ declaration.name ∈ contract.allNames := by
  have listed : ∀ name ∈ [declaration.type, declaration.name], name ∈ contract.allNames := by
    intro name either
    refine List.mem_append_left _ (List.mem_append_right _ ?_)
    exact List.mem_flatMap.mpr ⟨declaration, inside, either⟩
  exact ⟨listed _ (by simp), listed _ (by simp)⟩

theorem mem_allNames_of_function {contract : Contract} {routine : ContractFunction}
    (inside : routine ∈ contract.functions) : routine.name ∈ contract.allNames :=
  List.mem_append_right _ (List.mem_map_of_mem inside)

/-- The first character of a label tells state variables from functions. -/
def isVariable : Outline → Bool
  | .node label _ => label.toList.head? == some 'S'

/-- The outline tells the outlines of the state variables and those of the functions. -/
theorem members_of_outline_eq {first second : Contract} (same : first.outline = second.outline) :
    first.stateVariables.map StateVariable.outline =
        second.stateVariables.map StateVariable.outline ∧
      first.functions.map ContractFunction.outline =
        second.functions.map ContractFunction.outline := by
  obtain ⟨_, members⟩ := Outline.node.inj same
  have holds : ∀ contract : Contract,
      ∀ outline ∈ contract.stateVariables.map StateVariable.outline, isVariable outline = true := by
    intro contract outline inside
    obtain ⟨declaration, _, rfl⟩ := List.mem_map.mp inside
    simp [isVariable, StateVariable.outline, ToString.toString]
  have stops : ∀ contract : Contract,
      ∀ outline ∈ (contract.functions.map ContractFunction.outline).head?,
        isVariable outline = false := by
    intro contract outline inside
    obtain ⟨routine, _, rfl⟩ := List.mem_map.mp (List.mem_of_head? inside)
    simp [isVariable, ContractFunction.outline, ToString.toString]
  exact eq_of_append_eq members (holds first) (holds second) (stops first) (stops second)

theorem asPrinted_eq_of_outline_eq {first second : Contract}
    (spaceless : ∀ name ∈ first.allNames, name.Spaceless)
    (spacelessOther : ∀ name ∈ second.allNames, name.Spaceless)
    (same : first.outline = second.outline) : first.asPrinted = second.asPrinted := by
  obtain ⟨labels, _⟩ := Outline.node.inj same
  have lists : first.name.label.toList ++ first.basesLabel.toList =
      second.name.label.toList ++ second.basesLabel.toList := by
    simpa [ToString.toString] using congrArg String.toList labels
  obtain ⟨ownNames, behind⟩ := Ident.eq_of_label_append (spaceless _ (by simp [allNames]))
    (spacelessOther _ (by simp [allNames])) first.head?_basesLabel second.head?_basesLabel lists
  have bases : first.bases = second.bases :=
    eq_of_basesLabel (fun base inside => spaceless base (by simp [allNames, inside]))
      (fun base inside => spacelessOther base (by simp [allNames, inside]))
      (String.toList_injective behind)
  obtain ⟨stateVariables, functions⟩ := members_of_outline_eq same
  have printedVariables : first.stateVariables.map StateVariable.asPrinted =
      second.stateVariables.map StateVariable.asPrinted := by
    refine map_eq_map_of (fun declaration inside other insideOther => ?_) stateVariables
    obtain ⟨type, name⟩ := mem_allNames_of_stateVariable inside
    obtain ⟨otherType, otherName⟩ := mem_allNames_of_stateVariable insideOther
    exact StateVariable.asPrinted_eq_of_outline_eq
      ⟨spaceless _ type, spacelessOther _ otherType⟩ ⟨spaceless _ name, spacelessOther _ otherName⟩
  have printedFunctions : first.functions.map ContractFunction.asPrinted =
      second.functions.map ContractFunction.asPrinted := by
    refine map_eq_map_of (fun routine inside other insideOther => ?_) functions
    exact ContractFunction.asPrinted_eq_of_outline_eq
      ⟨spaceless _ (mem_allNames_of_function inside),
        spacelessOther _ (mem_allNames_of_function insideOther)⟩
  rw [asPrinted, asPrinted, ownNames, bases, printedVariables, printedFunctions]

end Contract

end ContractLens
