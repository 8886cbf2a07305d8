import ContractLens.Proofs.Syntax.Sign
import ContractLens.Syntax.Position

/-!
# Signs of parts

The signs of a part stand together among those of the whole expression.  The first
sign of an expression has an offset, and that is where the expression begins.
-/

namespace ContractLens.Expression

/-- The first sign of an expression stands at the offset at which the expression begins. -/
theorem exists_signs_eq (expression : Expression) :
    ∃ symbol behind, expression.signs = ⟨symbol, some expression.pos⟩ :: behind := by
  induction expression with
  | ident name => simp [signs, Sign.name, pos]
  | literal kind text pos => simp [signs, Expression.pos]
  | binary left operator pos right leftIh _ =>
      obtain ⟨symbol, behind, first⟩ := leftIh
      simp [signs, first, Expression.pos]
  | call callee arguments leftParen rightParen calleeIh _ =>
      obtain ⟨symbol, behind, first⟩ := calleeIh
      simp [signs, first, pos]
  | index base subscript baseIh _ =>
      obtain ⟨symbol, behind, first⟩ := baseIh
      simp [signs, first, pos]
  | selector base member baseIh =>
      obtain ⟨symbol, behind, first⟩ := baseIh
      simp [signs, first, pos]
  | paren leftParen inner _ => simp [signs, Sign.mark, pos]

theorem signs_infix {expression part : Expression} (member : part ∈ expression.parts) :
    part.signs <:+: expression.signs := by
  induction expression with
  | ident name =>
      rw [parts, List.mem_singleton] at member
      subst member
      exact List.infix_rfl
  | literal kind text pos =>
      rw [parts, List.mem_singleton] at member
      subst member
      exact List.infix_rfl
  | binary left operator pos right leftIh rightIh =>
      simp only [parts, List.mem_cons, List.mem_append] at member
      rcases member with rfl | inLeft | inRight
      · exact List.infix_rfl
      · rw [signs]
        exact (leftIh inLeft).trans (List.prefix_append _ _).isInfix
      · refine (rightIh inRight).trans ?_
        exact ⟨left.signs ++ [.mark operator.kind pos], [], by simp [signs]⟩
  | call callee arguments leftParen rightParen calleeIh argumentsIh =>
      simp only [parts, List.mem_cons, List.mem_append, List.mem_flatMap] at member
      rcases member with rfl | inCallee | ⟨argument, inside, inArgument⟩
      · exact List.infix_rfl
      · rw [signs, List.append_assoc]
        exact (calleeIh inCallee).trans (List.prefix_append _ _).isInfix
      · have among : argument.signs <:+: arguments.flatMap signs :=
          List.infix_of_mem_flatten (List.mem_map_of_mem inside)
        refine ((argumentsIh argument inside inArgument).trans among).trans ?_
        exact ⟨callee.signs ++ [.mark .leftParen leftParen], [.mark .rightParen rightParen],
          by simp [signs]⟩
  | index base subscript baseIh subscriptIh =>
      simp only [parts, List.mem_cons, List.mem_append] at member
      rcases member with rfl | inBase | inSubscript
      · exact List.infix_rfl
      · rw [signs, List.append_assoc]
        exact (baseIh inBase).trans (List.prefix_append _ _).isInfix
      · refine (subscriptIh inSubscript).trans ?_
        exact ⟨base.signs ++ [.bare .leftBracket], [.bare .rightBracket], by simp [signs]⟩
  | selector base name baseIh =>
      simp only [parts, List.mem_cons] at member
      rcases member with rfl | inBase
      · exact List.infix_rfl
      · rw [signs]
        exact (baseIh inBase).trans (List.prefix_append _ _).isInfix
  | paren leftParen inner innerIh =>
      simp only [parts, List.mem_cons] at member
      rcases member with rfl | inInner
      · exact List.infix_rfl
      · refine (innerIh inInner).trans ?_
        exact ⟨[.mark .leftParen leftParen], [.bare .rightParen], by simp [signs]⟩

end ContractLens.Expression
