import ContractLens.Declaration.Search

/-!
# Walks and the scopes they leave

What a walk leaves behind is a scope, and what counts about a scope is what it
knows of a name.  Declaring names one after the other makes the last one of a
name count; assigning to names one after the other makes the first one count,
and only where the name was not known before.

A walk that is nested leaves the scope as it was, so walks of that kind do not
influence each other.
-/

namespace ContractLens

/-! ## Names in a list -/

def firstNamed? (name : String) (idents : List Ident) : Option Ident :=
  idents.find? fun ident => ident.name = name

def lastNamed? (name : String) (idents : List Ident) : Option Ident :=
  firstNamed? name idents.reverse

@[simp] theorem firstNamed?_nil (name : String) : firstNamed? name [] = none :=
  rfl

theorem firstNamed?_cons (name : String) (ident : Ident) (idents : List Ident) :
    firstNamed? name (ident :: idents) =
      if ident.name = name then some ident else firstNamed? name idents := by
  by_cases same : ident.name = name <;> simp [firstNamed?, same]

theorem lastNamed?_cons (name : String) (ident : Ident) (idents : List Ident) :
    lastNamed? name (ident :: idents) =
      (lastNamed? name idents).or (if ident.name = name then some ident else none) := by
  simp only [lastNamed?, List.reverse_cons]
  rw [← firstNamed?_nil name, ← firstNamed?_cons]
  simp [firstNamed?]

theorem of_firstNamed?_eq_some {name : String} {idents : List Ident} {ident : Ident}
    (found : firstNamed? name idents = some ident) : ident ∈ idents ∧ ident.name = name :=
  ⟨List.mem_of_find?_eq_some found, by simpa using List.find?_some found⟩

theorem of_lastNamed?_eq_some {name : String} {idents : List Ident} {ident : Ident}
    (found : lastNamed? name idents = some ident) : ident ∈ idents ∧ ident.name = name := by
  obtain ⟨member, named⟩ := of_firstNamed?_eq_some found
  exact ⟨List.mem_reverse.mp member, named⟩

theorem lastNamed?_eq_none {name : String} {idents : List Ident} :
    lastNamed? name idents = none ↔ ∀ ident ∈ idents, ident.name ≠ name := by
  simp [lastNamed?, firstNamed?]

theorem firstNamed?_filter {name : String} {idents : List Ident} {ident : Ident}
    (keep : Ident → Bool) (found : firstNamed? name idents = some ident)
    (kept : keep ident = true) : firstNamed? name (idents.filter keep) = some ident := by
  obtain ⟨named, front, back, rfl, others⟩ := List.find?_eq_some_iff_append.mp found
  have passed : (front.filter keep).find? (fun other => other.name = name) = none := by
    rw [List.find?_eq_none]
    intro other member
    simpa using others other (List.mem_filter.mp member).1
  rw [List.filter_append, List.filter_cons_of_pos kept, firstNamed?, List.find?_append, passed,
    Option.none_or]
  exact List.find?_cons_of_pos named

theorem firstNamed?_upTo {name : String} {idents : List Ident} {ident : Ident} {limit : Nat}
    (found : firstNamed? name (idents.filter fun other => other.pos ≤ limit) = some ident) :
    firstNamed? name (idents.filter fun other => other.pos ≤ ident.pos) = some ident := by
  obtain ⟨listed, _⟩ := of_firstNamed?_eq_some found
  have within : ident.pos ≤ limit := by simpa using (List.mem_filter.mp listed).2
  have again := firstNamed?_filter (fun other => other.pos ≤ ident.pos) found (by simp)
  rw [List.filter_filter] at again
  rw [← again]
  congr 1
  apply List.filter_congr
  intro other _
  simp only [← Bool.decide_and, decide_eq_decide]
  omega

/-! ## Scopes -/

namespace Scope

def declareAll (scope : Scope) (idents : List Ident) : Scope :=
  idents.foldl (fun scope ident => scope.declare ident.name ident.pos) scope

/-- Declare a name unless it is known. -/
def assign (scope : Scope) (ident : Ident) : Scope :=
  match scope.lookup? ident.name with
  | some _ => scope
  | none => scope.declare ident.name ident.pos

def assignAll (scope : Scope) (idents : List Ident) : Scope :=
  idents.foldl assign scope

/-- Of the names declared in one scope the last one counts. -/
theorem lookup?_declareAll (scope : Scope) (idents : List Ident) (name : String) :
    (scope.declareAll idents).lookup? name =
      ((lastNamed? name idents).map Ident.pos).or (scope.lookup? name) := by
  induction idents generalizing scope with
  | nil => rfl
  | cons ident idents ih =>
      have step : scope.declareAll (ident :: idents) =
          (scope.declare ident.name ident.pos).declareAll idents := rfl
      rw [step, ih, lookup?_declare, lastNamed?_cons]
      by_cases same : name = ident.name
      · cases lastNamed? name idents <;> simp [same]
      · cases lastNamed? name idents <;> simp [same, Ne.symm same]

theorem lookup?_assign (scope : Scope) (ident : Ident) (name : String) :
    (scope.assign ident).lookup? name =
      (scope.lookup? name).or (if ident.name = name then some ident.pos else none) := by
  unfold assign
  by_cases same : ident.name = name
  · subst same
    cases known : scope.lookup? ident.name with
    | some pos => simp [known]
    | none => simp
  · cases scope.lookup? ident.name with
    | some pos => simp [same]
    | none => simp [same, Ne.symm same]

/-- Of the names assigned to, the first one counts, and only if the name was unknown. -/
theorem lookup?_assignAll (scope : Scope) (idents : List Ident) (name : String) :
    (scope.assignAll idents).lookup? name =
      (scope.lookup? name).or ((firstNamed? name idents).map Ident.pos) := by
  induction idents generalizing scope with
  | nil => simp [assignAll]
  | cons ident idents ih =>
      have step : scope.assignAll (ident :: idents) = (scope.assign ident).assignAll idents := rfl
      rw [step, ih, lookup?_assign, firstNamed?_cons, Option.or_assoc]
      by_cases same : ident.name = name <;> simp [same]

end Scope

/-! ## Walks -/

namespace Walk

@[simp] theorem skip_andThen (walk : Walk) : skip.andThen walk = walk :=
  rfl

@[simp] theorem andThen_skip (walk : Walk) : walk.andThen skip = walk := by
  funext scope
  rcases result : walk scope with ⟨_ | found, after⟩ <;> simp [andThen, result, skip]

theorem andThen_assoc (first second third : Walk) :
    (first.andThen second).andThen third = first.andThen (second.andThen third) := by
  funext scope
  rcases result : first scope with ⟨_ | found, after⟩ <;> simp [andThen, result]

@[simp] theorem inOrder_nil : inOrder [] = skip :=
  rfl

@[simp] theorem inOrder_cons (walk : Walk) (walks : List Walk) :
    inOrder (walk :: walks) = walk.andThen (inOrder walks) :=
  rfl

theorem inOrder_append (first second : List Walk) :
    inOrder (first ++ second) = (inOrder first).andThen (inOrder second) := by
  induction first with
  | nil => rfl
  | cons walk walks ih => simp [ih, andThen_assoc]

theorem inOrder_flatMap {Item Part : Type} (parts : Item → List Part) (walk : Part → Walk)
    (items : List Item) :
    inOrder ((items.flatMap parts).map walk) =
      inOrder (items.map fun item => inOrder ((parts item).map walk)) := by
  induction items with
  | nil => rfl
  | cons item items ih => simp [inOrder_append, ih]

theorem fst_andThen (first second : Walk) (scope : Scope) :
    (first.andThen second scope).1 = (first scope).1.or (second (first scope).2).1 := by
  rcases result : first scope with ⟨_ | found, after⟩ <;> simp [andThen, result]

theorem andThen_of_eq_none {first second : Walk} {scope after : Scope}
    (missed : first scope = (none, after)) : first.andThen second scope = second after := by
  simp [andThen, missed]

theorem inOrder_declare (idents : List Ident) (scope : Scope) :
    inOrder (idents.map declare) scope = (none, scope.declareAll idents) := by
  induction idents generalizing scope with
  | nil => rfl
  | cons ident idents ih => exact ih _

theorem declareAssigned_eq (ident : Ident) (scope : Scope) :
    declareAssigned ident scope = (none, scope.assign ident) := by
  unfold declareAssigned Scope.assign
  cases scope.lookup? ident.name <;> rfl

/-! ## Scopes that are left as they were -/

/-- A walk leaves the scopes around the innermost one as they were. -/
def KeepsOuter (walk : Walk) : Prop :=
  ∀ scope, (walk scope).2.outer = scope.outer

theorem keepsOuter_skip : skip.KeepsOuter :=
  fun _ => rfl

theorem keepsOuter_declare (ident : Ident) : (declare ident).KeepsOuter :=
  fun _ => rfl

theorem keepsOuter_declareAssigned (ident : Ident) : (declareAssigned ident).KeepsOuter := by
  intro scope
  unfold declareAssigned
  cases scope.lookup? ident.name <;> rfl

theorem snd_use (target : Nat) (ident : Ident) (scope : Scope) :
    (use target ident scope).2 = scope := by
  unfold use
  split <;> rfl

theorem keepsOuter_use (target : Nat) (ident : Ident) : (use target ident).KeepsOuter := by
  intro scope
  rw [snd_use]

theorem KeepsOuter.andThen {first second : Walk} (keepsFirst : first.KeepsOuter)
    (keepsSecond : second.KeepsOuter) : (first.andThen second).KeepsOuter := by
  intro scope
  have keeps := keepsFirst scope
  rcases result : first scope with ⟨_ | found, after⟩
  · rw [andThen_of_eq_none result, keepsSecond after, ← keeps, result]
  · simpa [Walk.andThen, result] using keeps

theorem keepsOuter_inOrder {walks : List Walk} (keeps : ∀ walk ∈ walks, walk.KeepsOuter) :
    (inOrder walks).KeepsOuter := by
  induction walks with
  | nil => exact keepsOuter_skip
  | cons walk walks ih =>
      exact (keeps walk (by simp)).andThen (ih fun other member => keeps other (by simp [member]))

theorem keepsOuter_inOrder_map {Item : Type} {walk : Item → Walk} (items : List Item)
    (keeps : ∀ item, (walk item).KeepsOuter) : (inOrder (items.map walk)).KeepsOuter :=
  keepsOuter_inOrder (List.forall_mem_map.mpr fun item _ => keeps item)

theorem fst_nested (walk : Walk) (scope : Scope) : (walk.nested scope).1 = (walk scope.push).1 :=
  rfl

theorem KeepsOuter.snd_nested {walk : Walk} (keeps : walk.KeepsOuter) (scope : Scope) :
    (walk.nested scope).2 = scope := by
  have outer : (walk scope.push).2.outer = scope.inner :: scope.outer := keeps scope.push
  simp [nested, Scope.pop?, outer]

theorem snd_andThen_of_keeps {first second : Walk} {scope : Scope}
    (keepsFirst : (first scope).2 = scope) (keepsSecond : (second scope).2 = scope) :
    (first.andThen second scope).2 = scope := by
  rcases result : first scope with ⟨_ | found, after⟩
  · rw [result] at keepsFirst
    subst keepsFirst
    rwa [andThen_of_eq_none result]
  · simpa [andThen, result] using keepsFirst

theorem snd_inOrder_of_keeps {walks : List Walk} {scope : Scope}
    (keeps : ∀ walk ∈ walks, (walk scope).2 = scope) : (inOrder walks scope).2 = scope := by
  induction walks with
  | nil => rfl
  | cons walk walks ih =>
      exact snd_andThen_of_keeps (keeps walk (by simp))
        (ih fun other member => keeps other (by simp [member]))

theorem snd_inOrder_map_of_keeps {Item : Type} {walk : Item → Walk} {scope : Scope}
    (items : List Item) (keeps : ∀ item, (walk item scope).2 = scope) :
    (inOrder (items.map walk) scope).2 = scope :=
  snd_inOrder_of_keeps (List.forall_mem_map.mpr fun item _ => keeps item)

/-- Walks that leave the scope as it was find what the first successful one finds alone. -/
theorem fst_inOrder_of_keeps {walks : List Walk} {scope : Scope}
    (keeps : ∀ walk ∈ walks, (walk scope).2 = scope) :
    (inOrder walks scope).1 = walks.findSome? fun walk => (walk scope).1 := by
  induction walks with
  | nil => rfl
  | cons walk walks ih =>
      rw [inOrder_cons, fst_andThen, keeps walk (by simp),
        ih fun other member => keeps other (by simp [member])]
      cases found : (walk scope).1 <;> simp [found]

/-- Walks past items that leave the scope as it was find what the only one of use finds. -/
theorem fst_inOrder_map_of_only {Item : Type} {walk : Item → Walk} {scope : Scope}
    {items : List Item} {item : Item} (keeps : ∀ item, (walk item scope).2 = scope)
    (member : item ∈ items)
    (others : ∀ other ∈ items, other = item ∨ (walk other scope).1 = none) :
    (inOrder (items.map walk) scope).1 = (walk item scope).1 := by
  rw [fst_inOrder_of_keeps (List.forall_mem_map.mpr fun other _ => keeps other),
    List.findSome?_map]
  cases found : items.findSome? ((fun walk => (walk scope).1) ∘ walk) with
  | none => exact (List.findSome?_eq_none_iff.mp found item member).symm
  | some answer =>
      obtain ⟨other, inside, hit⟩ := List.exists_of_findSome?_eq_some found
      rcases others other inside with rfl | missed
      · exact hit.symm
      · cases hit.symm.trans missed

end Walk

end ContractLens
