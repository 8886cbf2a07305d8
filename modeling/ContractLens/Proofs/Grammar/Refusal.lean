import ContractLens.Proofs.Grammar.Acceptance

/-!
# Refused phrases

A phrase made of parts is refused if one of its parts is refused and those in
front of it are accepted.  The refusal of a part is the refusal of the whole: the
cause is the same, and so are the lexemes that were not accepted.
-/

namespace ContractLens.Grammar

namespace Outcome

variable {α β : Type} {bound larger : Nat} {cause : Cause} {rest : List Lexeme}

/-- The phrase is refused for this cause, in front of these lexemes. -/
def Refuses (outcome : Outcome α bound) (cause : Cause) (rest : List Lexeme) : Prop :=
  outcome = .refused cause rest

theorem refuses_iff {outcome : Outcome α bound} :
    outcome.Refuses cause rest ↔ outcome.result = .error cause ∧ outcome.rest = rest := by
  cases outcome with
  | accepted value behind shorter => simp [Refuses]
  | refused other behind => simp [Refuses]

theorem Accepts.not_refuses {outcome : Outcome α bound} {value : α} {behind : List Lexeme}
    (accepts : outcome.Accepts value behind) : ¬ outcome.Refuses cause rest := by
  obtain ⟨shorter, rfl⟩ := accepts
  simp [Refuses]

@[simp] theorem not_refuses_accepted {value : α} {behind : List Lexeme}
    {shorter : behind.length < bound} :
    ¬ (accepted value behind shorter).Refuses cause rest := by
  simp [Refuses]

@[simp] theorem refuses_refused {other : Cause} {behind : List Lexeme} :
    (refused other behind : Outcome α bound).Refuses cause rest ↔
      other = cause ∧ behind = rest := by
  simp [Refuses]

@[simp] theorem not_refuses_stay {value : α} {lexemes : List Lexeme} :
    ¬ (stay value lexemes).Refuses cause rest :=
  not_refuses_accepted

@[simp] theorem not_refuses_take {value : α} {lexeme : Lexeme} {lexemes : List Lexeme} :
    ¬ (take value lexeme lexemes).Refuses cause rest :=
  not_refuses_accepted

@[simp] theorem refuses_within {le : bound ≤ larger} {outcome : Outcome α bound} :
    (outcome.within le).Refuses cause rest ↔ outcome.Refuses cause rest := by
  simp [refuses_iff]

@[simp] theorem refuses_relax {outcome : Outcome α bound} :
    outcome.relax.Refuses cause rest ↔ outcome.Refuses cause rest :=
  refuses_within

@[simp] theorem refuses_map {f : α → β} {outcome : Outcome α bound} :
    (outcome.map f).Refuses cause rest ↔ outcome.Refuses cause rest := by
  cases outcome with
  | accepted value behind shorter => simp [map]
  | refused other behind => simp [map]

/-- Reading on is refused if the first part is, or the second one behind it. -/
theorem refuses_andMaybe {outcome : Outcome α bound}
    {next : α → (rest : List Lexeme) → rest.length < bound → Outcome β (rest.length + 1)} :
    (outcome.andMaybe next).Refuses cause rest ↔
      outcome.Refuses cause rest ∨
        ∃ part middle, ∃ accepts : outcome.Accepts part middle,
          (next part middle accepts.shorter).Refuses cause rest := by
  cases outcome with
  | accepted part behind shorter =>
      rw [andMaybe_accepted, refuses_within]
      constructor
      · intro refuses
        exact .inr ⟨part, behind, ⟨shorter, rfl⟩, refuses⟩
      · rintro (first | ⟨other, middle, ⟨_, same⟩, refuses⟩)
        · exact absurd first not_refuses_accepted
        · cases same
          exact refuses
  | refused other behind => simp

theorem refuses_andThen {outcome : Outcome α bound}
    {next : α → (rest : List Lexeme) → rest.length < bound → Outcome β rest.length} :
    (outcome.andThen next).Refuses cause rest ↔
      outcome.Refuses cause rest ∨
        ∃ part middle, ∃ accepts : outcome.Accepts part middle,
          (next part middle accepts.shorter).Refuses cause rest := by
  simp only [andThen, refuses_andMaybe, refuses_relax]

end Outcome

open Outcome

/-! ## Single lexemes -/

/-- No lexeme of the kind comes next. -/
def Lacks (kind : Kind) (lexemes : List Lexeme) : Prop :=
  ∀ next ∈ lexemes.head?, next.kind ≠ kind

@[simp] theorem lacks_nil (kind : Kind) : Lacks kind [] := by
  simp [Lacks]

@[simp] theorem lacks_cons {kind : Kind} {lexeme : Lexeme} {lexemes : List Lexeme} :
    Lacks kind (lexeme :: lexemes) ↔ lexeme.kind ≠ kind := by
  simp [Lacks]

variable {cause : Cause} {lexemes rest : List Lexeme}

@[simp] theorem refuses_accept {kind : Kind} :
    (accept kind lexemes).Refuses cause rest ↔
      cause = .expected kind ∧ rest = lexemes ∧ Lacks kind lexemes := by
  cases lexemes with
  | nil => simp [accept, eq_comm]
  | cons first behind =>
      by_cases same : first.kind = kind
      · simp [accept, same]
      · simp [accept, same, eq_comm]

@[simp] theorem refuses_acceptName :
    (acceptName lexemes).Refuses cause rest ↔
      cause = .expected .identifier ∧ rest = lexemes ∧ Lacks .identifier lexemes := by
  simp [acceptName]

end ContractLens.Grammar
