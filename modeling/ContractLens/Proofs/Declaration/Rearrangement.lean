import ContractLens.Proofs.Declaration.Confinement
import Mathlib.Data.List.Find
import Mathlib.Data.List.Forall2

/-!
# Contracts and functions in another order

All contracts are declared before the first of them is walked, and so are all members of a
contract, and neither a contract nor a body leaves anything behind.  So no question about a
program depends on the order of its contracts or on that of the functions in them, provided
that names stand at different offsets and that no declaration is hidden by a later one.
-/

namespace ContractLens

/-! ## Lists in another order -/

theorem lastNamed?_eq_of_perm {idents others : List Ident} (perm : idents.Perm others)
    (distinct : (idents.map Ident.name).Nodup) (name : String) :
    lastNamed? name idents = lastNamed? name others := by
  have reversed : idents.reverse.Perm others.reverse :=
    idents.reverse_perm.trans (perm.trans others.reverse_perm.symm)
  refine List.find?_eq_find?_of_perm reversed ?_
  rintro first ⟨isFirst, named⟩ second ⟨isSecond, alsoNamed⟩
  refine List.inj_on_of_nodup_map distinct (List.mem_reverse.mp isFirst)
    (List.mem_reverse.mp isSecond) ?_
  exact (of_decide_eq_true named).trans (of_decide_eq_true alsoNamed).symm

/-- Of items that have different places, only one can have an answer about a place. -/
theorem pairwise_eq_none_of_nodup {Item Answer : Type} {places : Item → List Nat}
    {answer? : Item → Option Answer} {target : Nat} {items : List Item}
    (distinct : (items.flatMap places).Nodup)
    (missed : ∀ item, target ∉ places item → answer? item = none) :
    items.Pairwise fun first second => answer? first = none ∨ answer? second = none := by
  refine (List.nodup_flatMap.mp distinct).2.imp fun {first second} disjoint => ?_
  by_cases here : target ∈ places first
  · exact .inr (missed second (disjoint here))
  · exact .inl (missed first here)

/-- If only one item can have an answer, the items may be asked in any order. -/
theorem findSome?_eq_of_perm {Item Answer : Type} {answer? : Item → Option Answer}
    {items others : List Item} (perm : items.Perm others)
    (apart : items.Pairwise fun first second => answer? first = none ∨ answer? second = none) :
    items.findSome? answer? = others.findSome? answer? := by
  induction perm with
  | nil => rfl
  | cons item _ ih => rw [List.findSome?_cons, List.findSome?_cons, ih apart.of_cons]
  | swap first second items =>
      have oneMisses := (List.pairwise_cons.mp apart).1 first List.mem_cons_self
      rcases oneMisses with misses | misses <;> simp [List.findSome?_cons, misses]
  | trans perm _ ih ihBehind =>
      exact (ih apart).trans (ihBehind (perm.pairwise apart fun {_ _} => Or.symm))

theorem findSome?_eq_of_forall₂ {Item Answer : Type} {related : Item → Item → Prop}
    {answer? otherAnswer? : Item → Option Answer} {items others : List Item}
    (each : List.Forall₂ related items others)
    (same : ∀ item ∈ items, ∀ other, related item other → answer? item = otherAnswer? other) :
    items.findSome? answer? = others.findSome? otherAnswer? := by
  induction each with
  | nil => rfl
  | @cons item other items others first _ ih =>
      rw [List.findSome?_cons, List.findSome?_cons, same item List.mem_cons_self other first,
        ih fun behind member => same behind (List.mem_cons_of_mem _ member)]

/-! ## Scopes that know the same -/

/-- Both scopes know the same of every name. -/
def Scope.Alike (first second : Scope) : Prop :=
  ∀ name, first.lookup? name = second.lookup? name

theorem Scope.Alike.push {first second : Scope} (alike : first.Alike second) :
    first.push.Alike second.push := by
  intro name
  rw [lookup?_push, lookup?_push, alike name]

namespace Walk

/-- What a walk finds depends on what the scope knows, and so does what it leaves behind. -/
def Extensional (walk : Walk) : Prop :=
  ∀ {first second : Scope}, first.Alike second →
    (walk first).1 = (walk second).1 ∧ (walk first).2.Alike (walk second).2

theorem extensional_skip : skip.Extensional :=
  fun alike => ⟨rfl, alike⟩

theorem extensional_use (target : Nat) (name : Ident) : (use target name).Extensional := by
  intro first second alike
  rw [snd_use, snd_use]
  refine ⟨?_, alike⟩
  unfold use
  rw [alike name.name]
  split <;> rfl

theorem extensional_declareAssigned (name : Ident) : (declareAssigned name).Extensional := by
  intro first second alike
  rw [declareAssigned_eq, declareAssigned_eq]
  refine ⟨rfl, fun other => ?_⟩
  rw [Scope.lookup?_assign, Scope.lookup?_assign, alike other]

theorem Extensional.andThen {front behind : Walk} (extensional : front.Extensional)
    (extensionalBehind : behind.Extensional) : (front.andThen behind).Extensional := by
  intro first second alike
  obtain ⟨found, left⟩ := extensional alike
  rcases result : front first with ⟨_ | answer, after⟩
  · rw [result] at found left
    have missed : front second = (none, (front second).2) := Prod.ext found.symm rfl
    rw [andThen_of_eq_none result, andThen_of_eq_none missed]
    exact extensionalBehind left
  · rw [result] at found left
    have hit : front second = (some answer, (front second).2) := Prod.ext found.symm rfl
    simp only [Walk.andThen, result]
    rw [hit]
    exact ⟨rfl, left⟩

theorem extensional_inOrder_map {Item : Type} {walk : Item → Walk} (items : List Item)
    (each : ∀ item, (walk item).Extensional) : (inOrder (items.map walk)).Extensional := by
  induction items with
  | nil => exact extensional_skip
  | cons item items ih => exact Extensional.andThen (each item) ih

end Walk

theorem extensional_walkAlong (target : Nat) (occurrences : List Occurrence) :
    (walkAlong target occurrences).Extensional := by
  apply Walk.extensional_inOrder_map
  intro occurrence
  refine Walk.Extensional.andThen ?_ (Walk.extensional_use target occurrence.name)
  split
  · exact Walk.extensional_declareAssigned occurrence.name
  · exact Walk.extensional_skip

/-! ## Functions in another order -/

/-- The contract has the functions of another one, in any order. -/
structure Contract.Reordered (contract other : Contract) : Prop where
  name : other.name = contract.name
  bases : other.bases = contract.bases
  stateVariables : other.stateVariables = contract.stateVariables
  functions : contract.functions.Perm other.functions

def ContractFunction.places (function : ContractFunction) : List Nat :=
  function.occurrences.map fun occurrence => occurrence.name.pos

/-- The offsets of the names in a contract that can be asked for. -/
def Contract.places (contract : Contract) : List Nat :=
  contract.references.map fun reference => reference.name.pos

theorem ContractFunction.fst_walkAlong_of_not_mem {target : Nat} {function : ContractFunction}
    (missed : target ∉ function.places) (scope : Scope) :
    (walkAlong target function.occurrences scope).1 = none := by
  rw [walkAlong_of_missed]
  intro occurrence member here
  exact missed (List.mem_map.mpr ⟨occurrence, member, here⟩)

namespace Contract

variable {contract other : Contract} {target : Nat}

theorem places_functions_sublist (contract : Contract) :
    (contract.functions.flatMap ContractFunction.places).Sublist contract.places := by
  have bodies : (contract.functions.flatMap ContractFunction.places) =
      (contract.functions.flatMap fun function => function.occurrences.map fun occurrence =>
        (⟨.body contract function, occurrence.name⟩ : Reference)).map
          fun reference => reference.name.pos := by
    simp only [List.map_flatMap, List.map_map]
    rfl
  rw [bodies, places, references]
  refine List.Sublist.map _ ?_
  exact (List.sublist_append_right _ _).trans (List.sublist_append_right _ _)

theorem fst_walkWhole_of_not_mem (missed : target ∉ contract.places) (scope : Scope) :
    (contract.walkWhole target scope).1 = none := by
  have away : ∀ reference ∈ contract.references, reference.name.pos ≠ target := by
    intro reference member here
    exact missed (List.mem_map.mpr ⟨reference, member, here⟩)
  rw [fst_walkWhole_of_missed
    (fun base member => away _ (contract.base_mem_references member))
    (fun occurrence member => away _ (contract.initialiser_mem_references member)),
    fst_walkFunctions, List.findSome?_eq_none_iff]
  intro function isFunction
  rw [walkAlong_of_missed]
  exact fun occurrence member => away _ (contract.body_mem_references isFunction member)

namespace Reordered

theorem member?_eq (reordered : contract.Reordered other)
    (distinct : (contract.functions.map fun function => function.name.name).Nodup)
    (name : String) : contract.member? name = other.member? name := by
  rw [member?, member?, reordered.stateVariables,
    lastNamed?_eq_of_perm (reordered.functions.map ContractFunction.name)]
  rwa [List.map_map]

theorem fst_walkFunctions_eq (reordered : contract.Reordered other)
    (distinct : contract.places.Nodup) {scope otherScope : Scope}
    (alike : scope.Alike otherScope) :
    (contract.walkFunctions target scope).1 = (other.walkFunctions target otherScope).1 := by
  have each : (fun function : ContractFunction =>
      (walkAlong target function.occurrences scope.push).1) =
      fun function => (walkAlong target function.occurrences otherScope.push).1 := by
    funext function
    exact (extensional_walkAlong target function.occurrences alike.push).1
  have bodies := distinct.sublist contract.places_functions_sublist
  rw [fst_walkFunctions, fst_walkFunctions, each]
  exact findSome?_eq_of_perm reordered.functions (pairwise_eq_none_of_nodup bodies
    fun function missed => function.fst_walkAlong_of_not_mem missed _)

/-- In scopes that know the same, both contracts give the same answer. -/
theorem fst_walkWhole_eq (reordered : contract.Reordered other)
    (names : (contract.functions.map fun function => function.name.name).Nodup)
    (distinct : contract.places.Nodup) {scope otherScope : Scope}
    (alike : scope.Alike otherScope) :
    (contract.walkWhole target scope).1 = (other.walkWhole target otherScope).1 := by
  obtain ⟨bases, _⟩ :=
    Walk.extensional_inOrder_map contract.bases (Walk.extensional_use target) alike
  have members : (contract.memberScope scope).Alike (other.memberScope otherScope) := by
    intro name
    rw [lookup?_memberScope, lookup?_memberScope, reordered.member?_eq names, alike name]
  obtain ⟨initial, left⟩ := extensional_walkAlong target contract.initialOccurrences members
  have bodies : (contract.walkFunctions target _).1 = (other.walkFunctions target _).1 :=
    reordered.fst_walkFunctions_eq distinct left
  have sameInitial : other.initialOccurrences = contract.initialOccurrences := by
    rw [initialOccurrences, initialOccurrences, reordered.stateVariables]
  rw [walkWhole, walkWhole, Walk.fst_andThen, Walk.fst_andThen, snd_walkBases, snd_walkBases,
    Walk.fst_nested, Walk.fst_nested, walk_push, walk_push, Walk.fst_andThen, Walk.fst_andThen,
    reordered.bases, bases, sameInitial, initial, bodies]

end Reordered

end Contract

/-! ## Contracts in another order -/

namespace Program

/-- The program has the contracts of another one in any order, and so their functions. -/
def Reordered (program other : Program) : Prop :=
  ∃ contracts, program.contracts.Perm contracts ∧
    List.Forall₂ Contract.Reordered contracts other.contracts

variable {program other : Program}

theorem Reordered.alike_globalScope (reordered : program.Reordered other)
    (names : (program.contracts.map fun contract => contract.name.name).Nodup) :
    (globalScope program.contracts).Alike (globalScope other.contracts) := by
  obtain ⟨contracts, perm, each⟩ := reordered
  have sameNames : contracts.map Contract.name = other.contracts.map Contract.name := by
    rw [← List.forall₂_eq_eq_eq, List.forall₂_map_left_iff, List.forall₂_map_right_iff]
    exact each.imp fun first second reordered => reordered.name.symm
  intro name
  rw [lookup?_globalScope, lookup?_globalScope, ← sameNames,
    lastNamed?_eq_of_perm (perm.map Contract.name)]
  rwa [List.map_map]

/-- No answer depends on the order of the contracts and of the functions in them. -/
theorem declarationAt_eq_of_reordered (reordered : program.Reordered other)
    (distinct : (program.references.map fun reference => reference.name.pos).Nodup)
    (contractNames : (program.contracts.map fun contract => contract.name.name).Nodup)
    (functionNames : ∀ contract ∈ program.contracts,
      (contract.functions.map fun function => function.name.name).Nodup) (target : Nat) :
    other.declarationAt target = program.declarationAt target := by
  have alike := reordered.alike_globalScope contractNames
  obtain ⟨contracts, perm, each⟩ := reordered
  rw [references, List.map_flatMap] at distinct
  have apart : ∀ contract ∈ program.contracts, contract.places.Nodup :=
    (List.nodup_flatMap.mp distinct).1
  have found : (other.walk target .root).1 = (program.walk target .root).1 := by
    rw [fst_walk_eq_findSome?, fst_walk_eq_findSome?]
    calc
      other.contracts.findSome? (fun contract =>
          (contract.walkWhole target (globalScope other.contracts)).1)
      _ = contracts.findSome? fun contract =>
          (contract.walkWhole target (globalScope program.contracts)).1 := by
        refine (findSome?_eq_of_forall₂ each fun contract member _ same => ?_).symm
        have inside := perm.mem_iff.mpr member
        exact same.fst_walkWhole_eq (functionNames contract inside) (apart contract inside) alike
      _ = program.contracts.findSome? fun contract =>
          (contract.walkWhole target (globalScope program.contracts)).1 :=
        (findSome?_eq_of_perm perm (pairwise_eq_none_of_nodup distinct fun contract missed =>
          contract.fst_walkWhole_of_not_mem missed _)).symm
  rw [declarationAt, declarationAt, found]

/-- The function that is used in the body in front of it is found if its body comes first, too. -/
theorem declarationAt_eq_forward_reference :
    ∃ program other : Program,
      (parse "contract A is B { function f() { g; } function g() { B; } } contract B { }").1 =
        .ok program ∧
      program.Reordered other ∧
      other.declarationAt 33 = program.declarationAt 33 ∧ program.declarationAt 33 = .ok 47 := by
  let f : ContractFunction := ⟨⟨"f", 27⟩, .pub, [.ident ⟨"g", 33⟩]⟩
  let g : ContractFunction := ⟨⟨"g", 47⟩, .pub, [.ident ⟨"B", 53⟩]⟩
  let base : Contract := ⟨⟨"B", 69⟩, [], [], []⟩
  let program : Program := ⟨none, [], [⟨⟨"A", 9⟩, [⟨"B", 14⟩], [], [f, g]⟩, base]⟩
  let other : Program := ⟨none, [], [base, ⟨⟨"A", 9⟩, [⟨"B", 14⟩], [], [g, f]⟩]⟩
  have reordered : program.Reordered other := by
    refine ⟨program.contracts.reverse, program.contracts.reverse_perm.symm, ?_⟩
    exact .cons ⟨rfl, rfl, rfl, .refl _⟩ (.cons ⟨rfl, rfl, rfl, .swap _ _ _⟩ .nil)
  have places : program.references.map (fun reference => reference.name.pos) = [14, 33, 53] := by
    simp [program, references, Contract.references, Contract.initialOccurrences, f, g, base,
      ContractFunction.occurrences, Expression.occurrences]
  have answer : program.declarationAt 33 = .ok 47 := by
    simp only [declarationAt, walk, Contract.walk, program, f, g, base, ContractFunction.walk,
      Expression.walk, List.map_cons, List.map_nil]
    rfl
  refine ⟨program, other, by decide +kernel, reordered,
    declarationAt_eq_of_reordered reordered ?_ ?_ ?_ 33, answer⟩
  · rw [places]
    decide
  · decide
  · decide

end Program

end ContractLens
