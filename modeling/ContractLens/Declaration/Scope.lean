/-!
# Scopes

A scope holds the names declared in one place and knows the scopes around it.
Looking a name up goes from the inside out, and of several declarations in one
scope the latest counts.
-/

namespace ContractLens

/-- The innermost declarations, latest first, and those of the scopes around them. -/
structure Scope where
  inner : List (String × Nat)
  outer : List (List (String × Nat))
  deriving DecidableEq, Repr

namespace Scope

def root : Scope :=
  ⟨[], []⟩

/-- Declare a name; an earlier declaration in the same scope no longer counts. -/
def declare (scope : Scope) (name : String) (pos : Nat) : Scope :=
  { scope with inner := (name, pos) :: scope.inner }

/-- Where a name is declared, as seen from the innermost scope. -/
def lookup? (scope : Scope) (name : String) : Option Nat :=
  (scope.inner :: scope.outer).findSome? (·.lookup name)

def push (scope : Scope) : Scope :=
  ⟨[], scope.inner :: scope.outer⟩

/-- Leave the innermost scope; the outermost one cannot be left. -/
def pop? (scope : Scope) : Option Scope :=
  match scope.outer with
  | [] => none
  | enclosing :: outer => some ⟨enclosing, outer⟩

/-- The number of scopes around the innermost one. -/
def depth (scope : Scope) : Nat :=
  scope.outer.length

@[simp] theorem lookup?_root (name : String) : root.lookup? name = none :=
  rfl

@[simp] theorem lookup?_declare (scope : Scope) (name other : String) (pos : Nat) :
    (scope.declare name pos).lookup? other =
      if other = name then some pos else scope.lookup? other := by
  by_cases same : other = name
  · simp [lookup?, declare, same]
  · have differ : (other == name) = false := by simpa using same
    simp [lookup?, declare, List.findSome?_cons, List.lookup_cons, same, differ]

@[simp] theorem lookup?_push (scope : Scope) (name : String) :
    scope.push.lookup? name = scope.lookup? name := by
  simp [lookup?, push, List.findSome?_cons]

@[simp] theorem depth_push (scope : Scope) : scope.push.depth = scope.depth + 1 :=
  rfl

end Scope

end ContractLens
