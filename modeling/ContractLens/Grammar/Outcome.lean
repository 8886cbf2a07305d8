import ContractLens.Grammar.Error
import ContractLens.Syntax.Basic

/-!
# Outcomes of reading

A phrase is read from the front of a list of lexemes.  Either it is accepted,
and fewer lexemes than the stated bound are left, or it is refused with the
lexemes that were not accepted.  Nothing but the next lexeme decides.

A reader whose bound is the number of lexemes it is given takes at least one;
a reader that may take none has that number plus one as its bound.
-/

namespace ContractLens.Grammar

/-- The outcome of reading a phrase; what an accepted phrase leaves is below the bound. -/
inductive Outcome (α : Type) (bound : Nat) where
  | accepted (value : α) (rest : List Lexeme) (shorter : rest.length < bound)
  | refused (cause : Cause) (rest : List Lexeme)

namespace Outcome

variable {α β : Type} {bound larger : Nat}

/-! ## What an outcome says -/

def rest : Outcome α bound → List Lexeme
  | accepted _ rest _ => rest
  | refused _ rest => rest

/-- The value of an accepted phrase, or the cause of the refusal. -/
def result : Outcome α bound → Except Cause α
  | accepted value _ _ => .ok value
  | refused cause _ => .error cause

@[simp] theorem rest_accepted (value : α) (rest : List Lexeme) (shorter : rest.length < bound) :
    (accepted value rest shorter).rest = rest :=
  rfl

@[simp] theorem rest_refused (cause : Cause) (rest : List Lexeme) :
    (refused cause rest : Outcome α bound).rest = rest :=
  rfl

@[simp] theorem result_accepted (value : α) (rest : List Lexeme)
    (shorter : rest.length < bound) : (accepted value rest shorter).result = .ok value :=
  rfl

@[simp] theorem result_refused (cause : Cause) (rest : List Lexeme) :
    (refused cause rest : Outcome α bound).result = .error cause :=
  rfl

/-! ## Single phrases -/

def stay (value : α) (lexemes : List Lexeme) : Outcome α (lexemes.length + 1) :=
  accepted value lexemes (Nat.lt_succ_self _)

def take (value : α) (lexeme : Lexeme) (rest : List Lexeme) :
    Outcome α (lexeme :: rest).length :=
  accepted value rest (Nat.lt_succ_self _)

/-! ## Larger bounds and other values -/

def within (le : bound ≤ larger) : Outcome α bound → Outcome α larger
  | accepted value rest shorter => accepted value rest (Nat.lt_of_lt_of_le shorter le)
  | refused cause rest => refused cause rest

def relax (outcome : Outcome α bound) : Outcome α (bound + 1) :=
  outcome.within (Nat.le_succ bound)

def map (f : α → β) : Outcome α bound → Outcome β bound
  | accepted value rest shorter => accepted (f value) rest shorter
  | refused cause rest => refused cause rest

@[simp] theorem rest_within (le : bound ≤ larger) (outcome : Outcome α bound) :
    (outcome.within le).rest = outcome.rest := by
  cases outcome <;> rfl

@[simp] theorem result_within (le : bound ≤ larger) (outcome : Outcome α bound) :
    (outcome.within le).result = outcome.result := by
  cases outcome <;> rfl

@[simp] theorem rest_relax (outcome : Outcome α bound) : outcome.relax.rest = outcome.rest :=
  rest_within _ outcome

@[simp] theorem result_relax (outcome : Outcome α bound) :
    outcome.relax.result = outcome.result :=
  result_within _ outcome

/-! ## One phrase behind another -/

/-- Read on behind an accepted phrase with a reader that may take none of what is left. -/
def andMaybe (outcome : Outcome α bound)
    (next : α → (rest : List Lexeme) → rest.length < bound → Outcome β (rest.length + 1)) :
    Outcome β bound :=
  match outcome with
  | accepted value rest shorter => (next value rest shorter).within shorter
  | refused cause rest => refused cause rest

def andThen (outcome : Outcome α bound)
    (next : α → (rest : List Lexeme) → rest.length < bound → Outcome β rest.length) :
    Outcome β bound :=
  outcome.andMaybe fun value rest shorter => (next value rest shorter).relax

@[simp] theorem andMaybe_accepted (value : α) (rest : List Lexeme)
    (shorter : rest.length < bound)
    (next : α → (rest : List Lexeme) → rest.length < bound → Outcome β (rest.length + 1)) :
    (accepted value rest shorter).andMaybe next = (next value rest shorter).within shorter :=
  rfl

@[simp] theorem andMaybe_refused (cause : Cause) (rest : List Lexeme)
    (next : α → (rest : List Lexeme) → rest.length < bound → Outcome β (rest.length + 1)) :
    (refused cause rest : Outcome α bound).andMaybe next = refused cause rest :=
  rfl

end Outcome

/-! ## Single lexemes -/

def accept (kind : Kind) : (lexemes : List Lexeme) → Outcome Lexeme lexemes.length
  | [] => .refused (.expected kind) []
  | lexeme :: rest =>
      if lexeme.kind = kind then
        .take lexeme lexeme rest
      else
        .refused (.expected kind) (lexeme :: rest)

def nameOf (lexeme : Lexeme) : Ident :=
  ⟨lexeme.literal, lexeme.pos⟩

def acceptName (lexemes : List Lexeme) : Outcome Ident lexemes.length :=
  (accept .identifier lexemes).map nameOf

def isWord (word : String) (lexeme : Lexeme) : Bool :=
  lexeme.kind = .identifier && lexeme.literal == word

end ContractLens.Grammar
