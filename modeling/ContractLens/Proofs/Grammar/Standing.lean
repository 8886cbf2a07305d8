import ContractLens.Proofs.Grammar.Passage
import ContractLens.Proofs.Syntax.Part

/-!
# Where expressions stand

The lexemes of an expression stand together in the text, and so do those of every
part of it.  The first of them is the one at whose offset the expression begins.
Commas between arguments stand among them.
-/

namespace ContractLens

/-- Consecutive lexemes spell the expression, and the first one stands where it begins. -/
def Expression.StandsIn (lexemes : List Lexeme) (expression : Expression) : Prop :=
  ∃ before first others after, lexemes = before ++ first :: others ++ after ∧
    first.pos = expression.pos ∧ Spelled [.comma] expression.signs (first :: others)

/-- All parts of the expression stand in the lexemes. -/
def Expression.PartsStandIn (lexemes : List Lexeme) (expression : Expression) : Prop :=
  ∀ part ∈ expression.parts, part.StandsIn lexemes

namespace Expression

variable {expression : Expression} {lexemes : List Lexeme}

theorem StandsIn.within (stands : expression.StandsIn lexemes) (front back : List Lexeme) :
    expression.StandsIn (front ++ lexemes ++ back) := by
  obtain ⟨before, first, others, after, rfl, place, spelled⟩ := stands
  exact ⟨front ++ before, first, others, after ++ back, by simp, place, spelled⟩

theorem PartsStandIn.within (stand : expression.PartsStandIn lexemes)
    (front back : List Lexeme) : expression.PartsStandIn (front ++ lexemes ++ back) :=
  fun part member => (stand part member).within front back

theorem PartsStandIn.behind (stand : expression.PartsStandIn lexemes) (front : List Lexeme) :
    expression.PartsStandIn (front ++ lexemes) := by
  have stands := stand.within front []
  rwa [List.append_nil] at stands

theorem standsIn_of_spelled (spelled : Spelled [.comma] expression.signs lexemes) :
    expression.StandsIn lexemes := by
  obtain ⟨symbol, signs, first⟩ := expression.exists_signs_eq
  rw [first] at spelled
  obtain ⟨skipped, lexeme, behind, rfl, describes, others⟩ := spelled.of_cons
  refine ⟨skipped, lexeme, behind, [], by simp, describes.2 _ rfl, ?_⟩
  rw [first]
  exact .sign describes others

theorem partsStandIn_of_spelled (spelled : Spelled [.comma] expression.signs lexemes) :
    expression.PartsStandIn lexemes := by
  intro part member
  obtain ⟨before, after, whole⟩ := signs_infix member
  rw [← whole] at spelled
  obtain ⟨_, back, rfl, spelled, _⟩ := spelled.of_append
  obtain ⟨front, middle, rfl, _, spelled⟩ := spelled.of_append
  exact (standsIn_of_spelled spelled).within front back

/-- The lexemes that an expression records where it stands are in the order of the text. -/
theorem StandsIn.recorded_sublist (stands : expression.StandsIn lexemes) :
    expression.recorded.Sublist lexemes := by
  obtain ⟨before, first, others, after, rfl, _, spelled⟩ := stands
  apply spelled.sublist.trans
  exact (List.sublist_append_right before _).trans (List.sublist_append_left _ after)

end Expression

theorem Grammar.heldWhereRead_partsStandIn :
    HeldWhereRead fun lexemes expression => expression.PartsStandIn lexemes where
  behind front stand := stand.behind front
  read := by
    intro lexemes rest next expression reads faithful
    obtain ⟨taken, rfl, spelled⟩ := reads.spelled faithful
    rw [List.flatMap_singleton] at spelled
    exact (Expression.partsStandIn_of_spelled spelled).within [] _

/-- Every expression of a program that is read from a text stands there, with all its parts. -/
theorem partsStandIn_of_parse {text : String} {program : Program}
    (parsed : (parse text).1 = .ok program) :
    ∀ expression ∈ program.expressions, expression.PartsStandIn (lexemesOf text) := by
  intro expression inside
  obtain ⟨contract, listed, inside⟩ := List.mem_flatMap.mp inside
  exact forall_expression_of_parse Grammar.heldWhereRead_partsStandIn parsed contract listed
    expression inside

end ContractLens
