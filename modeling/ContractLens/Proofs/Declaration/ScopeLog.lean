import ContractLens.Declaration.Scope

/-!
# Scopes and the log of what was done to them

A chain of scopes is the result of a log of actions: names are defined, scopes
are entered and left.  What the chain knows of a name can be read off the log
alone.  A pop discards the definitions made on the level that it leaves, and the
latest definition that is not discarded counts.  The outermost level is never
left, so what is defined there is never discarded.

Between a push and the pop that matches it, whatever is done leaves no trace.
-/

namespace ContractLens

/-- What is done to a chain of scopes. -/
inductive ScopeAction where
  | define (name : String) (pos : Nat)
  | push
  | pop
  deriving DecidableEq, Repr

namespace Scope

/-- The scope behind an action; a pop does nothing to the outermost scope. -/
def perform (scope : Scope) : ScopeAction → Scope
  | .define name pos => scope.declare name pos
  | .push => scope.push
  | .pop => scope.pop?.getD scope

def performAll (scope : Scope) (log : List ScopeAction) : Scope :=
  log.foldl perform scope

end Scope

namespace ScopeLog

open ScopeAction

/-! ## Levels -/

/-- A pop leaves the level on which the log begins: up to it, more is popped than pushed. -/
def GoesBelow (log : List ScopeAction) : Prop :=
  ∃ part, part <+: log ∧ part.count push < part.count pop

/-- The number of levels that a log leaves, of those that are there when it begins. -/
def levelsLeft : List ScopeAction → Nat
  | [] => 0
  | define _ _ :: behind => levelsLeft behind
  | push :: behind => levelsLeft behind - 1
  | pop :: behind => levelsLeft behind + 1

theorem exists_part_cons_iff (action : ScopeAction) (behind : List ScopeAction) (levels : Nat) :
    (∃ part, part <+: action :: behind ∧ part.count push + levels < part.count pop) ↔
      ∃ part, part <+: behind ∧
        (action :: part).count push + levels < (action :: part).count pop := by
  constructor
  · rintro ⟨part, isPart, more⟩
    rcases List.prefix_cons_iff.mp isPart with rfl | ⟨rest, rfl, isRest⟩
    · simp at more
    · exact ⟨rest, isRest, more⟩
  · rintro ⟨rest, isRest, more⟩
    exact ⟨action :: rest, by simpa using isRest, more⟩

/-- More levels are left than a number of them if somewhere so many more pops were made. -/
theorem lt_levelsLeft_iff (log : List ScopeAction) (levels : Nat) :
    levels < levelsLeft log ↔
      ∃ part, part <+: log ∧ part.count push + levels < part.count pop := by
  induction log generalizing levels with
  | nil => simp [levelsLeft]
  | cons action behind ih =>
      rw [exists_part_cons_iff]
      cases action with
      | define name pos => simp [levelsLeft, ih]
      | push =>
          rw [levelsLeft, Nat.lt_sub_iff_add_lt, ih]
          simp [Nat.add_assoc, Nat.add_comm 1 levels]
      | pop =>
          cases levels with
          | zero =>
              have here : 0 < levelsLeft (pop :: behind) := Nat.succ_pos _
              exact iff_of_true here ⟨[], by simp, by simp⟩
          | succ levels =>
              rw [levelsLeft, Nat.add_lt_add_iff_right, ih]
              simp [← Nat.add_assoc]

theorem goesBelow_iff (log : List ScopeAction) : GoesBelow log ↔ 0 < levelsLeft log :=
  (lt_levelsLeft_iff log 0).symm

instance : DecidablePred GoesBelow :=
  fun log => decidable_of_iff _ (goesBelow_iff log).symm

/-- The number of pushes that no pop matches. -/
def openPushes : List ScopeAction → Nat
  | [] => 0
  | define _ _ :: behind => openPushes behind
  | push :: behind => if GoesBelow behind then openPushes behind else openPushes behind + 1
  | pop :: behind => openPushes behind

/-- A push is open if none of the levels left behind it is its own. -/
theorem openPushes_push (behind : List ScopeAction) :
    openPushes (push :: behind) = openPushes behind + (1 - levelsLeft behind) := by
  simp only [openPushes, goesBelow_iff]
  split <;> omega

/-- A pop leaves a level that was there before the log if no push is open. -/
theorem levelsLeft_concat_pop (log : List ScopeAction) :
    levelsLeft (log ++ [pop]) = levelsLeft log + (1 - openPushes log) := by
  induction log with
  | nil => rfl
  | cons action behind ih =>
      cases action with
      | define name pos => simpa [levelsLeft, openPushes] using ih
      | push =>
          have opened := openPushes_push behind
          simp only [List.cons_append, levelsLeft, ih]
          omega
      | pop =>
          simp only [List.cons_append, levelsLeft, openPushes, ih]
          omega

end ScopeLog

/-! ## What a log does to a chain of scopes -/

namespace Scope

open ScopeLog

/-- The scope behind a number of pops. -/
def leave : Nat → Scope → Scope
  | 0, scope => scope
  | levels + 1, scope => (scope.perform .pop).leave levels

theorem depth_perform_pop (scope : Scope) : (scope.perform .pop).depth = scope.depth - 1 := by
  rcases scope with ⟨inner, _ | ⟨enclosing, outer⟩⟩ <;> rfl

theorem leave_of_depth_eq_zero {scope : Scope} (outermost : scope.depth = 0) (levels : Nat) :
    scope.leave levels = scope := by
  have stays : scope.perform .pop = scope := by
    simp [perform, pop?, List.length_eq_zero_iff.mp outermost]
  induction levels with
  | zero => rfl
  | succ levels ih => rw [leave, stays, ih]

/-- What is defined is lost with the level on which it is defined. -/
theorem leave_declare {scope : Scope} (inside : 0 < scope.depth) (name : String)
    (pos : Nat) {levels : Nat} (left : 0 < levels) :
    (scope.declare name pos).leave levels = scope.leave levels := by
  rcases scope with ⟨inner, _ | ⟨enclosing, outer⟩⟩
  · cases inside
  · cases levels with
    | zero => cases left
    | succ levels => rfl

/-- The number of scopes behind a log: the open pushes, and what is left of the first scopes. -/
theorem depth_performAll (scope : Scope) (log : List ScopeAction) :
    (scope.performAll log).depth = openPushes log + (scope.depth - levelsLeft log) := by
  induction log generalizing scope with
  | nil => exact (Nat.zero_add _).symm
  | cons action behind ih =>
      have rest := ih (scope.perform action)
      cases action with
      | define name pos => exact rest
      | push =>
          have opened := openPushes_push behind
          have deeper : (scope.perform .push).depth = scope.depth + 1 := scope.depth_push
          rw [levelsLeft]
          exact rest.trans (by omega)
      | pop =>
          have higher := scope.depth_perform_pop
          rw [openPushes, levelsLeft]
          exact rest.trans (by omega)

/-- Above the levels that a log touches, the scopes are those from before. -/
theorem leave_performAll (scope : Scope) (log : List ScopeAction) {levels : Nat}
    (some : 0 < levels) (within : levelsLeft log + levels ≤ scope.depth) :
    (scope.performAll log).leave (openPushes log + levels) =
      scope.leave (levelsLeft log + levels) := by
  induction log generalizing scope levels with
  | nil => rfl
  | cons action behind ih =>
      cases action with
      | define name pos =>
          refine (ih (scope.declare name pos) some within).trans ?_
          exact leave_declare (by omega) name pos (by omega)
      | push =>
          have deeper := scope.depth_push
          rw [levelsLeft] at within
          have room : 0 < 1 - levelsLeft behind + levels := by omega
          have rest := ih scope.push room (by omega)
          have own : levelsLeft behind + (1 - levelsLeft behind + levels) =
              levelsLeft behind - 1 + levels + 1 := by omega
          rw [own, ← Nat.add_assoc, ← openPushes_push] at rest
          exact rest
      | pop =>
          have higher := scope.depth_perform_pop
          rw [levelsLeft] at within
          rw [openPushes, levelsLeft, Nat.add_right_comm]
          exact ih (scope.perform .pop) some (by omega)

/-- Between a push and the pop that matches it, whatever is done leaves no trace. -/
theorem performAll_push_pop (scope : Scope) {inside : List ScopeAction}
    (stays : ¬ GoesBelow inside) (matching : GoesBelow (inside ++ [.pop])) :
    scope.performAll (.push :: (inside ++ [.pop])) = scope := by
  rw [goesBelow_iff] at stays matching
  rw [levelsLeft_concat_pop] at matching
  have nothingLeft : levelsLeft inside = 0 := by omega
  have nothingOpen : openPushes inside = 0 := by omega
  have deeper := scope.depth_push
  have outside := leave_performAll scope.push inside Nat.one_pos (by omega)
  rw [nothingLeft, nothingOpen] at outside
  rw [performAll, List.foldl_cons, List.foldl_append]
  exact outside

end Scope

/-! ## Definitions that count -/

namespace ScopeLog

open ScopeAction

/-- A definition of a name in a log, with what is done in front of it and behind it. -/
structure Definition (log : List ScopeAction) (name : String) where
  front : List ScopeAction
  pos : Nat
  behind : List ScopeAction
  split : log = front ++ define name pos :: behind

namespace Definition

variable {log : List ScopeAction} {name : String}

/--
A definition is discarded if the level on which it was made is left later.  That
level can be left only if a push in front of the definition is open.
-/
def Discarded (definition : Definition log name) : Prop :=
  0 < openPushes definition.front ∧ GoesBelow definition.behind

/-- The latest of the definitions with a property. -/
structure IsLatest (definition : Definition log name) (property : Definition log name → Prop) :
    Prop where
  holds : property definition
  latest : ∀ other, property other → other.front.length ≤ definition.front.length

theorem IsLatest.pos_eq {property : Definition log name → Prop}
    {first second : Definition log name} (isFirst : first.IsLatest property)
    (isSecond : second.IsLatest property) : first.pos = second.pos := by
  have length : first.front.length = second.front.length :=
    Nat.le_antisymm (isSecond.latest first isFirst.holds) (isFirst.latest second isSecond.holds)
  have splits := first.split.symm.trans second.split
  obtain ⟨_, here⟩ := List.append_inj splits length
  simpa using (List.cons.inj here).1

/-- A definition in a log that begins with a given scope is discarded. -/
def DiscardedFrom (scope : Scope) (definition : Definition log name) : Prop :=
  0 < (scope.performAll definition.front).depth ∧ GoesBelow definition.behind

theorem discardedFrom_root (definition : Definition log name) :
    definition.DiscardedFrom .root ↔ definition.Discarded := by
  rw [DiscardedFrom, Discarded, Scope.depth_performAll]
  simp [Scope.depth, Scope.root]

/-- The first action of a log as a definition. -/
def atFront (name : String) (pos : Nat) (log : List ScopeAction) :
    Definition (define name pos :: log) name :=
  ⟨[], pos, log, rfl⟩

def afterAction (action : ScopeAction) (definition : Definition log name) :
    Definition (action :: log) name :=
  ⟨action :: definition.front, definition.pos, definition.behind, by
    rw [List.cons_append, ← definition.split]⟩

theorem eq_atFront_or_afterAction {action : ScopeAction}
    (definition : Definition (action :: log) name) :
    (action = define name definition.pos ∧ definition.front = [] ∧ definition.behind = log) ∨
      ∃ later : Definition log name, definition = later.afterAction action := by
  rcases definition with ⟨_ | ⟨first, front⟩, pos, behind, split⟩
  · obtain ⟨isFirst, rest⟩ := List.cons.inj split
    exact .inl ⟨isFirst, rfl, rest.symm⟩
  · obtain ⟨rfl, rest⟩ := List.cons.inj split
    exact .inr ⟨⟨front, pos, behind, rest⟩, rfl⟩

theorem IsLatest.afterAction {scope : Scope} (action : ScopeAction)
    {definition : Definition log name}
    (isLatest : definition.IsLatest fun other => ¬ other.DiscardedFrom (scope.perform action)) :
    (definition.afterAction action).IsLatest fun other => ¬ other.DiscardedFrom scope := by
  refine ⟨isLatest.holds, ?_⟩
  intro other kept
  rcases other.eq_atFront_or_afterAction with ⟨_, isFirst, _⟩ | ⟨later, rfl⟩
  · simp [isFirst]
  · exact Nat.succ_le_succ (isLatest.latest later kept)

theorem IsLatest.atFront {scope : Scope} {pos : Nat}
    (kept : ¬ (0 < scope.depth ∧ GoesBelow log))
    (discarded : ∀ later : Definition log name,
      later.DiscardedFrom (scope.perform (.define name pos))) :
    (Definition.atFront name pos log).IsLatest fun other => ¬ other.DiscardedFrom scope := by
  refine ⟨kept, ?_⟩
  intro other otherKept
  rcases other.eq_atFront_or_afterAction with ⟨_, isFirst, _⟩ | ⟨later, rfl⟩
  · simp [isFirst]
  · exact absurd (discarded later) otherKept

end Definition

end ScopeLog

namespace Scope

open ScopeLog

/-- What is defined is known until its level is left, and the outermost one never is. -/
theorem lookup?_leave_declare (scope : Scope) (name other : String) (pos levels : Nat) :
    ((scope.declare name pos).leave levels).lookup? other =
      if other = name ∧ ¬ (0 < scope.depth ∧ 0 < levels) then some pos
      else (scope.leave levels).lookup? other := by
  by_cases lost : 0 < scope.depth ∧ 0 < levels
  · simp [leave_declare lost.1 name pos lost.2, lost]
  · have stays (scope : Scope) (kept : ¬ (0 < scope.depth ∧ 0 < levels)) :
        scope.leave levels = scope := by
      cases levels with
      | zero => rfl
      | succ levels => exact leave_of_depth_eq_zero (by omega) _
    rw [stays scope lost, stays (scope.declare name pos) lost, lookup?_declare]
    simp [lost]

theorem lookup?_leave_perform (scope : Scope) {action : ScopeAction} {behind : List ScopeAction}
    {name : String}
    (lost : ∀ pos, action = .define name pos → 0 < scope.depth ∧ GoesBelow behind) :
    ((scope.perform action).leave (levelsLeft behind)).lookup? name =
      (scope.leave (levelsLeft (action :: behind))).lookup? name := by
  cases action with
  | define other pos =>
      refine (lookup?_leave_declare scope other name pos _).trans (if_neg ?_)
      rintro ⟨rfl, kept⟩
      rw [← goesBelow_iff] at kept
      exact kept (lost pos rfl)
  | push =>
      rw [levelsLeft]
      cases levelsLeft behind with
      | zero => exact lookup?_push scope name
      | succ levels => rfl
  | pop => rfl

/--
A name is known by the latest definition in a log that is not discarded.  If all
are discarded, it is known as in those of the first scopes that are not left.
-/
theorem lookup?_performAll (scope : Scope) (log : List ScopeAction) (name : String) :
    (∃ definition : Definition log name,
        definition.IsLatest (fun other => ¬ other.DiscardedFrom scope) ∧
          (scope.performAll log).lookup? name = some definition.pos) ∨
      (∀ definition : Definition log name, definition.DiscardedFrom scope) ∧
        (scope.performAll log).lookup? name = (scope.leave (levelsLeft log)).lookup? name := by
  induction log generalizing scope with
  | nil => exact .inr ⟨fun definition => by simpa using definition.split, rfl⟩
  | cons action behind ih =>
      rcases ih (scope.perform action) with ⟨definition, isLatest, found⟩ | ⟨discarded, found⟩
      · exact .inl ⟨definition.afterAction action, isLatest.afterAction action, found⟩
      · by_cases lost : ∀ pos, action = .define name pos → 0 < scope.depth ∧ GoesBelow behind
        · refine .inr ⟨?_, found.trans (lookup?_leave_perform scope lost)⟩
          intro definition
          rcases definition.eq_atFront_or_afterAction with ⟨isDefine, isFirst, rest⟩ | ⟨later, rfl⟩
          · rw [Definition.DiscardedFrom, isFirst, rest]
            exact lost _ isDefine
          · exact discarded later
        · -- nothing behind the first action counts, so the definition made there does
          simp only [Classical.not_forall] at lost
          obtain ⟨pos, rfl, kept⟩ := lost
          refine .inl ⟨.atFront name pos behind, .atFront kept discarded, ?_⟩
          rw [goesBelow_iff] at kept
          refine found.trans ((lookup?_leave_declare scope name name pos _).trans ?_)
          exact if_pos ⟨rfl, kept⟩

end Scope

namespace ScopeLog

/--
What is known of a chain of scopes by the log of what was done to it: a name by
its latest definition that is not discarded, the depth as the number of open
pushes; and a push is undone by the pop that matches it.
-/
structure Describes (log : List ScopeAction) (scope : Scope) : Prop where
  lookup?_eq_some : ∀ name pos, scope.lookup? name = some pos ↔
    ∃ definition : Definition log name,
      definition.IsLatest (fun other => ¬ other.Discarded) ∧ definition.pos = pos
  lookup?_eq_none : ∀ name, scope.lookup? name = none ↔
    ∀ definition : Definition log name, definition.Discarded
  depth_eq : scope.depth = openPushes log
  undone : ∀ inside, ¬ GoesBelow inside → GoesBelow (inside ++ [.pop]) →
    scope.performAll (.push :: (inside ++ [.pop])) = scope

/-- A chain of scopes is described by the log of what was done since it was the outermost one. -/
theorem describes_performAll (log : List ScopeAction) :
    Describes log (Scope.root.performAll log) := by
  have cases (name : String) := Scope.root.lookup?_performAll log name
  simp only [Definition.discardedFrom_root] at cases
  have nothing (name : String) : (Scope.root.leave (levelsLeft log)).lookup? name = none := by
    rw [Scope.leave_of_depth_eq_zero rfl, Scope.lookup?_root]
  constructor
  case lookup?_eq_some =>
    intro name pos
    constructor
    · intro known
      rcases cases name with ⟨definition, isLatest, found⟩ | ⟨_, found⟩
      · exact ⟨definition, isLatest, Option.some.inj (found.symm.trans known)⟩
      · rw [nothing, known] at found
        cases found
    · rintro ⟨definition, isLatest, rfl⟩
      rcases cases name with ⟨other, otherIsLatest, found⟩ | ⟨discarded, _⟩
      · rw [found, otherIsLatest.pos_eq isLatest]
      · exact absurd (discarded definition) isLatest.holds
  case lookup?_eq_none =>
    intro name
    rcases cases name with ⟨definition, isLatest, found⟩ | ⟨discarded, found⟩
    · rw [found]
      exact ⟨nofun, fun discarded => absurd (discarded definition) isLatest.holds⟩
    · exact ⟨fun _ => discarded, fun _ => found.trans (nothing name)⟩
  case depth_eq =>
    rw [Scope.depth_performAll]
    exact (congrArg _ (Nat.zero_sub _)).trans (Nat.add_zero _)
  case undone =>
    intro inside stays matching
    exact Scope.performAll_push_pop _ stays matching

/-- A name defined again inside is known as before once the inner scope is left. -/
example :
    let log := [.define "x" 1, .push, .define "x" 2, .pop, .pop, .define "y" 3]
    (Scope.root.performAll log).lookup? "x" = some 1 ∧ openPushes log = 0 := by
  decide

end ScopeLog

end ContractLens
