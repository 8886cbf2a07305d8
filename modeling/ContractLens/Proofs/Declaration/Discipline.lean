import ContractLens.Proofs.Declaration.Reference
import ContractLens.Syntax.Position

/-!
# What a walk does to the scopes

A walk through an expression or a body declares names in the innermost scope and
nowhere else: each is the bare left side of an assignment and was not known
before, so what is known already stays as it is.  A scope that is entered for a
contract or a body is left again, whether the target is met inside or not, and
all scopes are then as they were.  So behind a program the outermost scope is
the only one, and it knows the contracts.
-/

namespace ContractLens

namespace Scope

theorem outer_declareAll (scope : Scope) (idents : List Ident) :
    (scope.declareAll idents).outer = scope.outer := by
  induction idents generalizing scope with
  | nil => rfl
  | cons ident idents ih => exact ih _

/-- Names are declared one after the other, each of them unknown until then. -/
inductive Introduces : Scope → List Ident → Scope → Prop where
  | none (scope : Scope) : Introduces scope [] scope
  | declare {scope after : Scope} {name : Ident} {others : List Ident}
      (unknown : scope.lookup? name.name = .none)
      (rest : Introduces (scope.declare name.name name.pos) others after) :
      Introduces scope (name :: others) after

namespace Introduces

variable {scope middle after : Scope} {names others : List Ident}

theorem append (first : Introduces scope names middle) (second : Introduces middle others after) :
    Introduces scope (names ++ others) after := by
  induction first with
  | none => exact second
  | declare unknown _ ih => exact .declare unknown (ih second)

theorem outer_eq (introduces : Introduces scope names after) : after.outer = scope.outer := by
  induction introduces with
  | none => rfl
  | declare _ _ ih => exact ih

theorem inner_suffix (introduces : Introduces scope names after) :
    scope.inner <:+ after.inner := by
  induction introduces with
  | none => exact List.suffix_rfl
  | declare _ _ ih => exact (List.suffix_cons _ _).trans ih

theorem lookup?_eq_some (introduces : Introduces scope names after) {name : String} {pos : Nat}
    (known : scope.lookup? name = some pos) : after.lookup? name = some pos := by
  induction introduces with
  | none => exact known
  | @declare scope _ ident _ unknown _ ih =>
      have other : name ≠ ident.name := by
        rintro rfl
        cases unknown.symm.trans known
      exact ih (by rw [lookup?_declare, if_neg other, known])

end Introduces

end Scope

namespace Walk

/-- Whatever a walk finds, the names it declares are of a kind, and none was known before. -/
def OnlyIntroduces (walk : Walk) (kind : Ident → Prop) : Prop :=
  ∀ scope : Scope, ∃ names, (∀ name ∈ names, kind name) ∧ scope.Introduces names (walk scope).2

variable {first second walk : Walk} {kind other : Ident → Prop}

theorem OnlyIntroduces.mono (introduces : walk.OnlyIntroduces kind)
    (weaker : ∀ name, kind name → other name) : walk.OnlyIntroduces other := by
  intro scope
  obtain ⟨names, ofKind, behind⟩ := introduces scope
  exact ⟨names, fun name member => weaker name (ofKind name member), behind⟩

theorem onlyIntroduces_of_keeps (keeps : ∀ scope, (walk scope).2 = scope) :
    walk.OnlyIntroduces kind := by
  intro scope
  rw [keeps]
  exact ⟨[], by simp, .none scope⟩

theorem onlyIntroduces_declareAssigned {name : Ident} (ofKind : kind name) :
    (declareAssigned name).OnlyIntroduces kind := by
  intro scope
  cases known : scope.lookup? name.name with
  | some pos => exact ⟨[], by simp, by simpa [declareAssigned, known] using .none scope⟩
  | none =>
      refine ⟨[name], by simpa using ofKind, ?_⟩
      simpa [declareAssigned, known] using .declare known (.none _)

theorem OnlyIntroduces.andThen (firstIntroduces : first.OnlyIntroduces kind)
    (secondIntroduces : second.OnlyIntroduces kind) :
    (first.andThen second).OnlyIntroduces kind := by
  intro scope
  obtain ⟨names, ofKind, introduced⟩ := firstIntroduces scope
  rcases result : first scope with ⟨_ | found, middle⟩
  · rw [result] at introduced
    obtain ⟨others, othersOfKind, rest⟩ := secondIntroduces middle
    rw [andThen_of_eq_none result]
    refine ⟨names ++ others, ?_, introduced.append rest⟩
    exact fun name member => (List.mem_append.mp member).elim (ofKind name) (othersOfKind name)
  · exact ⟨names, ofKind, by simpa [Walk.andThen, result] using introduced⟩

theorem onlyIntroduces_inOrder {walks : List Walk}
    (introduce : ∀ walk ∈ walks, walk.OnlyIntroduces kind) :
    (inOrder walks).OnlyIntroduces kind := by
  induction walks with
  | nil => exact onlyIntroduces_of_keeps fun _ => rfl
  | cons walk walks ih =>
      obtain ⟨here, behind⟩ := List.forall_mem_cons.mp introduce
      exact here.andThen (ih behind)

/-- A walk adds names of a kind to the innermost scope and leaves all else as it was. -/
structure AddsOnly (walk : Walk) (kind : Ident → Prop) : Prop where
  introduces : walk.OnlyIntroduces kind
  outer_eq : ∀ scope : Scope, (walk scope).2.outer = scope.outer
  inner_suffix : ∀ scope : Scope, scope.inner <:+ (walk scope).2.inner
  lookup?_eq_some : ∀ (scope : Scope) (name : String) (pos : Nat),
    scope.lookup? name = some pos → (walk scope).2.lookup? name = some pos

theorem OnlyIntroduces.addsOnly (introduces : walk.OnlyIntroduces kind) :
    walk.AddsOnly kind := by
  constructor
  case introduces => exact introduces
  case outer_eq =>
    intro scope
    obtain ⟨_, _, behind⟩ := introduces scope
    exact behind.outer_eq
  case inner_suffix =>
    intro scope
    obtain ⟨_, _, behind⟩ := introduces scope
    exact behind.inner_suffix
  case lookup?_eq_some =>
    intro scope name pos known
    obtain ⟨_, _, behind⟩ := introduces scope
    exact behind.lookup?_eq_some known

/-- A walk in a scope of its own gets out of it by a pop, which gives back the scopes around. -/
structure Restores (walk : Walk) : Prop where
  inside : ∀ scope : Scope, 0 < (walk scope.push).2.depth
  pop?_eq : ∀ scope : Scope, (walk scope.push).2.pop? = some scope
  nested_eq : ∀ scope, (walk.nested scope).2 = scope

theorem KeepsOuter.restores (keeps : walk.KeepsOuter) : walk.Restores := by
  have around (scope : Scope) : (walk scope.push).2.outer = scope.inner :: scope.outer :=
    keeps scope.push
  constructor
  case inside => simp [Scope.depth, around]
  case pop?_eq => simp [Scope.pop?, around]
  case nested_eq => exact keeps.snd_nested

end Walk

/-! ## Walks through expressions and bodies -/

/-- A name is all that stands left of an assignment somewhere in an expression. -/
def Expression.Assigns (expression : Expression) (name : Ident) : Prop :=
  ∃ pos right, .binary (.ident name) .assign pos right ∈ expression.parts

def ContractFunction.Assigns (function : ContractFunction) (name : Ident) : Prop :=
  ∃ expression ∈ function.body, expression.Assigns name

namespace Expression

theorem Assigns.mono {part whole : Expression} {name : Ident} (assigns : part.Assigns name)
    (subset : part.parts ⊆ whole.parts) : whole.Assigns name := by
  obtain ⟨pos, right, member⟩ := assigns
  exact ⟨pos, right, subset member⟩

theorem onlyIntroduces_declaration (left : Expression) (operator : Operator) (pos : Nat)
    (right : Expression) :
    (operator.declaration left).OnlyIntroduces (binary left operator pos right).Assigns := by
  unfold Operator.declaration
  split
  · exact Walk.onlyIntroduces_declareAssigned ⟨pos, right, by simp [parts]⟩
  · exact Walk.onlyIntroduces_of_keeps fun _ => rfl

theorem onlyIntroduces_walk (target : Nat) (expression : Expression) :
    (expression.walk target).OnlyIntroduces expression.Assigns := by
  have use (name : Ident) (kind : Ident → Prop) : (Walk.use target name).OnlyIntroduces kind :=
    Walk.onlyIntroduces_of_keeps (Walk.snd_use target name)
  induction expression with
  | ident name =>
      rw [walk]
      exact use name _
  | literal kind text pos =>
      rw [walk]
      exact Walk.onlyIntroduces_of_keeps fun _ => rfl
  | binary left operator pos right leftIh rightIh =>
      rw [walk]
      refine (onlyIntroduces_declaration left operator pos right).andThen (.andThen ?_ ?_)
      · exact leftIh.mono fun name assigns => assigns.mono (by simp [parts])
      · exact rightIh.mono fun name assigns => assigns.mono (by simp [parts])
  | call callee arguments leftParen rightParen calleeIh argumentsIh =>
      rw [walk]
      refine .andThen ?_ (Walk.onlyIntroduces_inOrder (List.forall_mem_map.mpr ?_))
      · exact calleeIh.mono fun name assigns => assigns.mono (by simp [parts])
      · intro argument member
        refine (argumentsIh argument member).mono fun name assigns => assigns.mono ?_
        intro part isPart
        simp only [parts, List.mem_cons, List.mem_append, List.mem_flatMap]
        exact .inr (.inr ⟨argument, member, isPart⟩)
  | index base subscript baseIh subscriptIh =>
      rw [walk]
      refine .andThen ?_ ?_
      · exact baseIh.mono fun name assigns => assigns.mono (by simp [parts])
      · exact subscriptIh.mono fun name assigns => assigns.mono (by simp [parts])
  | selector base member baseIh =>
      rw [walk]
      refine .andThen ?_ (use member _)
      exact baseIh.mono fun name assigns => assigns.mono (by simp [parts])
  | paren leftParen inner innerIh =>
      rw [walk]
      exact innerIh.mono fun name assigns => assigns.mono (by simp [parts])

end Expression

theorem ContractFunction.onlyIntroduces_walk (target : Nat) (function : ContractFunction) :
    (function.walk target).OnlyIntroduces function.Assigns := by
  apply Walk.onlyIntroduces_inOrder
  rw [List.forall_mem_map]
  intro expression member
  exact (expression.onlyIntroduces_walk target).mono fun name assigns =>
    ⟨expression, member, assigns⟩

/-! ## Walks through programs -/

/-- A walk through a program declares the contracts outermost, and nothing besides. -/
theorem Program.snd_walk (target : Nat) (program : Program) (scope : Scope) :
    (program.walk target scope).2 = scope.declareAll (program.contracts.map Contract.name) := by
  have declared := Walk.inOrder_declare (program.contracts.map Contract.name) scope
  rw [List.map_map] at declared
  rw [walk, Walk.inOrder_cons, Walk.inOrder_cons, Walk.inOrder_nil, Walk.andThen_skip]
  refine (congrArg Prod.snd (Walk.andThen_of_eq_none declared)).trans ?_
  exact Walk.snd_inOrder_map_of_keeps program.contracts fun contract =>
    contract.snd_walkWhole target _

/--
What the walks with a target do to the scopes: those through expressions and
bodies only introduce names that are assigned, those through contracts and
bodies are taken in scopes of their own and give the scopes around them back,
and behind a program the outermost scope knows the contracts and nothing else.
-/
structure KeepsScopes (target : Nat) : Prop where
  expression : ∀ expression : Expression, (expression.walk target).AddsOnly expression.Assigns
  function : ∀ function : ContractFunction, (function.walk target).AddsOnly function.Assigns
  nestedFunction : ∀ function : ContractFunction, (function.walk target).Restores
  nestedContract : ∀ contract : Contract, (contract.walk target).Restores
  program : ∀ (program : Program) (scope : Scope),
    (program.walk target scope).2 = scope.declareAll (program.contracts.map Contract.name)
  outermost : ∀ program : Program, (program.walk target .root).2.outer = []
  contracts : ∀ (program : Program) (name : String),
    (program.walk target .root).2.lookup? name =
      (lastNamed? name (program.contracts.map Contract.name)).map Ident.pos

/-- The walks with any target keep to the scopes that are theirs. -/
theorem keepsScopes (target : Nat) : KeepsScopes target where
  expression expression := (expression.onlyIntroduces_walk target).addsOnly
  function function := (function.onlyIntroduces_walk target).addsOnly
  nestedFunction function := Walk.KeepsOuter.restores
    (function.onlyIntroduces_walk target).addsOnly.outer_eq
  nestedContract contract := (contract.keepsOuter_walk target).restores
  program program := program.snd_walk target
  outermost program := by
    rw [program.snd_walk target, Scope.outer_declareAll]
    rfl
  contracts program name := by
    rw [program.snd_walk target]
    exact lookup?_globalScope program.contracts name

end ContractLens
