import ContractLens.Grammar.Program

/-!
# Accepted phrases

A phrase made of parts is accepted exactly if its parts are accepted one behind
the other.  The lemmas here say so for every way of putting readers together, so
that no later proof looks inside an outcome.
-/

namespace ContractLens.Grammar

namespace Outcome

variable {α β : Type} {bound larger : Nat}

/-- The phrase is accepted with this value, and these lexemes are left. -/
def Accepts (outcome : Outcome α bound) (value : α) (rest : List Lexeme) : Prop :=
  ∃ shorter : rest.length < bound, outcome = .accepted value rest shorter

theorem Accepts.shorter {outcome : Outcome α bound} {value : α} {rest : List Lexeme}
    (accepts : outcome.Accepts value rest) : rest.length < bound := by
  obtain ⟨shorter, _⟩ := accepts
  exact shorter

theorem accepts_iff {outcome : Outcome α bound} {value : α} {rest : List Lexeme} :
    outcome.Accepts value rest ↔ outcome.result = .ok value ∧ outcome.rest = rest := by
  constructor
  · rintro ⟨shorter, rfl⟩
    exact ⟨rfl, rfl⟩
  · rintro ⟨result, left⟩
    cases outcome with
    | accepted other behind shorter =>
        cases result
        cases left
        exact ⟨shorter, rfl⟩
    | refused cause behind => cases result

@[simp] theorem accepts_accepted {value other : α} {rest behind : List Lexeme}
    {shorter : rest.length < bound} :
    (accepted value rest shorter).Accepts other behind ↔ value = other ∧ rest = behind := by
  simp [accepts_iff]

@[simp] theorem not_accepts_refused {cause : Cause} {rest behind : List Lexeme} {value : α} :
    ¬ (refused cause rest : Outcome α bound).Accepts value behind := by
  simp [accepts_iff]

@[simp] theorem accepts_stay {value other : α} {lexemes rest : List Lexeme} :
    (stay value lexemes).Accepts other rest ↔ value = other ∧ lexemes = rest :=
  accepts_accepted

@[simp] theorem accepts_take {value other : α} {lexeme : Lexeme} {lexemes rest : List Lexeme} :
    (take value lexeme lexemes).Accepts other rest ↔ value = other ∧ lexemes = rest :=
  accepts_accepted

@[simp] theorem accepts_within {le : bound ≤ larger} {outcome : Outcome α bound} {value : α}
    {rest : List Lexeme} :
    (outcome.within le).Accepts value rest ↔ outcome.Accepts value rest := by
  simp [accepts_iff]

@[simp] theorem accepts_relax {outcome : Outcome α bound} {value : α} {rest : List Lexeme} :
    outcome.relax.Accepts value rest ↔ outcome.Accepts value rest :=
  accepts_within

@[simp] theorem accepts_map {f : α → β} {outcome : Outcome α bound} {value : β}
    {rest : List Lexeme} :
    (outcome.map f).Accepts value rest ↔
      ∃ part, outcome.Accepts part rest ∧ f part = value := by
  cases outcome with
  | accepted part behind shorter =>
      constructor
      · intro accepts
        obtain ⟨same, rfl⟩ := accepts_accepted.mp accepts
        exact ⟨part, ⟨shorter, rfl⟩, same⟩
      · rintro ⟨other, accepts, same⟩
        obtain ⟨rfl, rfl⟩ := accepts_accepted.mp accepts
        exact ⟨shorter, congrArg (accepted · behind shorter) same⟩
  | refused cause behind => simp [map]

/-- Reading on is accepted if both parts are accepted, the second behind the first. -/
theorem accepts_andMaybe {outcome : Outcome α bound}
    {next : α → (rest : List Lexeme) → rest.length < bound → Outcome β (rest.length + 1)}
    {value : β} {rest : List Lexeme} :
    (outcome.andMaybe next).Accepts value rest ↔
      ∃ part middle, ∃ accepts : outcome.Accepts part middle,
        (next part middle accepts.shorter).Accepts value rest := by
  cases outcome with
  | accepted part behind shorter =>
      rw [andMaybe_accepted, accepts_within]
      constructor
      · intro accepts
        exact ⟨part, behind, ⟨shorter, rfl⟩, accepts⟩
      · rintro ⟨other, middle, ⟨_, same⟩, accepts⟩
        cases same
        exact accepts
  | refused cause behind => simp

theorem accepts_andThen {outcome : Outcome α bound}
    {next : α → (rest : List Lexeme) → rest.length < bound → Outcome β rest.length}
    {value : β} {rest : List Lexeme} :
    (outcome.andThen next).Accepts value rest ↔
      ∃ part middle, ∃ accepts : outcome.Accepts part middle,
        (next part middle accepts.shorter).Accepts value rest := by
  simp only [andThen, accepts_andMaybe, accepts_relax]

end Outcome

open Outcome

/-! ## Single lexemes -/

@[simp] theorem accepts_accept {kind : Kind} {lexemes rest : List Lexeme} {lexeme : Lexeme} :
    (accept kind lexemes).Accepts lexeme rest ↔
      lexemes = lexeme :: rest ∧ lexeme.kind = kind := by
  cases lexemes with
  | nil => simp [accept]
  | cons first behind =>
      by_cases same : first.kind = kind
      · simp only [accept, if_pos same, accepts_take, List.cons.injEq]
        constructor
        · rintro ⟨rfl, rfl⟩
          exact ⟨⟨rfl, rfl⟩, same⟩
        · rintro ⟨both, _⟩
          exact both
      · simp only [accept, if_neg same, not_accepts_refused, List.cons.injEq, false_iff]
        rintro ⟨⟨rfl, _⟩, other⟩
        exact same other

@[simp] theorem accepts_acceptName {lexemes rest : List Lexeme} {name : Ident} :
    (acceptName lexemes).Accepts name rest ↔
      ∃ lexeme, lexemes = lexeme :: rest ∧ lexeme.kind = .identifier ∧
        nameOf lexeme = name := by
  simp [acceptName, and_assoc]

end ContractLens.Grammar
