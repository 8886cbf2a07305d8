import ContractLens.Syntax.Basic

/-!
# Equality of programs

Whether two expressions are equal can be decided, and so can equality of whole
programs.  Arguments of a call are compared one by one.
-/

namespace ContractLens

mutual

def Expression.decEq : (first second : Expression) → Decidable (first = second)
  | .ident name, .ident name' => decidable_of_iff (name = name') (by simp)
  | .literal kind text pos, .literal kind' text' pos' =>
      decidable_of_iff (kind = kind' ∧ text = text' ∧ pos = pos') (by simp)
  | .binary left operator pos right, .binary left' operator' pos' right' =>
      have := left.decEq left'
      have := right.decEq right'
      decidable_of_iff (left = left' ∧ operator = operator' ∧ pos = pos' ∧ right = right')
        (by simp)
  | .call callee arguments leftParen rightParen, .call callee' arguments' leftParen' rightParen' =>
      have := callee.decEq callee'
      have := Expression.decEqList arguments arguments'
      decidable_of_iff (callee = callee' ∧ arguments = arguments' ∧ leftParen = leftParen' ∧
        rightParen = rightParen') (by simp)
  | .index base subscript, .index base' subscript' =>
      have := base.decEq base'
      have := subscript.decEq subscript'
      decidable_of_iff (base = base' ∧ subscript = subscript') (by simp)
  | .selector base member, .selector base' member' =>
      have := base.decEq base'
      decidable_of_iff (base = base' ∧ member = member') (by simp)
  | .paren leftParen inner, .paren leftParen' inner' =>
      have := inner.decEq inner'
      decidable_of_iff (leftParen = leftParen' ∧ inner = inner') (by simp)
  | .ident _, .literal _ _ _ | .ident _, .binary _ _ _ _ | .ident _, .call _ _ _ _
  | .ident _, .index _ _ | .ident _, .selector _ _ | .ident _, .paren _ _
  | .literal _ _ _, .ident _ | .literal _ _ _, .binary _ _ _ _
  | .literal _ _ _, .call _ _ _ _ | .literal _ _ _, .index _ _
  | .literal _ _ _, .selector _ _ | .literal _ _ _, .paren _ _
  | .binary _ _ _ _, .ident _ | .binary _ _ _ _, .literal _ _ _
  | .binary _ _ _ _, .call _ _ _ _ | .binary _ _ _ _, .index _ _
  | .binary _ _ _ _, .selector _ _ | .binary _ _ _ _, .paren _ _
  | .call _ _ _ _, .ident _ | .call _ _ _ _, .literal _ _ _
  | .call _ _ _ _, .binary _ _ _ _ | .call _ _ _ _, .index _ _
  | .call _ _ _ _, .selector _ _ | .call _ _ _ _, .paren _ _
  | .index _ _, .ident _ | .index _ _, .literal _ _ _ | .index _ _, .binary _ _ _ _
  | .index _ _, .call _ _ _ _ | .index _ _, .selector _ _ | .index _ _, .paren _ _
  | .selector _ _, .ident _ | .selector _ _, .literal _ _ _ | .selector _ _, .binary _ _ _ _
  | .selector _ _, .call _ _ _ _ | .selector _ _, .index _ _ | .selector _ _, .paren _ _
  | .paren _ _, .ident _ | .paren _ _, .literal _ _ _ | .paren _ _, .binary _ _ _ _
  | .paren _ _, .call _ _ _ _ | .paren _ _, .index _ _ | .paren _ _, .selector _ _ =>
      isFalse nofun

def Expression.decEqList : (firsts seconds : List Expression) → Decidable (firsts = seconds)
  | [], [] => isTrue rfl
  | first :: firsts, second :: seconds =>
      have := first.decEq second
      have := decEqList firsts seconds
      decidable_of_iff (first = second ∧ firsts = seconds) (by simp)
  | [], _ :: _ | _ :: _, [] => isFalse nofun

end

instance : DecidableEq Expression :=
  Expression.decEq

deriving instance DecidableEq for StateVariable, ContractFunction, Contract, Program

end ContractLens
