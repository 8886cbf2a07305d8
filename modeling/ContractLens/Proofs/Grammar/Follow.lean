import ContractLens.Proofs.Grammar.Cursor

/-!
# Cursors and readers

A procedure follows a reader if it ends where the reader ends, with the same value or
cause, and advances once for every lexeme in between.  What is put together of
procedures follows what is put together of readers in the same way.  A loop follows a
recursive reader if every turn of it follows one step of the recursion and takes a
lexeme before there is another turn.
-/

namespace ContractLens.Grammar

open Step

variable {α β σ : Type}

/-- What a reader makes of the lexemes, and what it leaves, without its bound. -/
def Outcome.ending {bound : Nat} (outcome : Outcome α bound) : Except Cause α × List Lexeme :=
  (outcome.result, outcome.rest)

namespace Outcome

variable {bound larger : Nat}

@[simp] theorem ending_accepted (value : α) (rest : List Lexeme) (shorter : rest.length < bound) :
    (accepted value rest shorter).ending = (.ok value, rest) :=
  rfl

@[simp] theorem ending_refused (cause : Cause) (rest : List Lexeme) :
    (refused cause rest : Outcome α bound).ending = (.error cause, rest) :=
  rfl

@[simp] theorem ending_take (value : α) (lexeme : Lexeme) (rest : List Lexeme) :
    (take value lexeme rest).ending = (.ok value, rest) :=
  rfl

@[simp] theorem ending_within (le : bound ≤ larger) (outcome : Outcome α bound) :
    (outcome.within le).ending = outcome.ending := by
  simp [ending]

@[simp] theorem ending_relax (outcome : Outcome α bound) :
    outcome.relax.ending = outcome.ending := by
  simp [ending]

end Outcome

/-- The procedure ends in this way, with one advance for every lexeme that it passes. -/
structure Follows (step : Step α) (lexemes : List Lexeme)
    (ending : Except Cause α × List Lexeme) : Prop where
  run : ∃ passed, lexemes = passed ++ ending.2 ∧ ∀ advances,
    step ⟨lexemes, advances⟩ = match ending.1 with
      | .ok value => .ok value ⟨ending.2, advances + passed.length⟩
      | .error cause => .error (.refused cause) ⟨ending.2, advances + passed.length⟩

namespace Follows

variable {step : Step α} {next : α → Step β} {lexemes rest : List Lexeme} {value : α}
  {cause : Cause}

theorem pure (value : α) (lexemes : List Lexeme) :
    Follows (Pure.pure value) lexemes (.ok value, lexemes) :=
  ⟨[], rfl, fun _ => rfl⟩

theorem refuse (cause : Cause) (lexemes : List Lexeme) :
    Follows (refuse cause : Step α) lexemes (.error cause, lexemes) :=
  ⟨[], rfl, fun _ => rfl⟩

/-- Behind a procedure that returns, the next one goes on where it ended. -/
theorem bind {ending : Except Cause β × List Lexeme}
    (first : Follows step lexemes (.ok value, rest)) (second : Follows (next value) rest ending) :
    Follows (step >>= next) lexemes ending := by
  obtain ⟨passed, rfl, runs⟩ := first
  obtain ⟨more, rfl, goesOn⟩ := second
  refine ⟨passed ++ more, by simp, fun advances => ?_⟩
  have both : (step >>= next) ⟨passed ++ (more ++ ending.2), advances⟩ =
      next value ⟨more ++ ending.2, advances + passed.length⟩ := by
    change EStateM.bind _ _ _ = _
    rw [EStateM.bind, runs]
  rw [both, goesOn, List.length_append, Nat.add_assoc]

theorem bind_refused (first : Follows step lexemes (.error cause, rest)) :
    Follows (step >>= next) lexemes (.error cause, rest) := by
  obtain ⟨passed, rfl, runs⟩ := first
  refine ⟨passed, rfl, fun advances => ?_⟩
  change EStateM.bind _ _ _ = _
  rw [EStateM.bind, runs]

/-- Behind a procedure that follows a reader goes what follows the reader behind. -/
theorem andMaybe {bound : Nat} {outcome : Outcome α bound}
    {behind : α → (rest : List Lexeme) → rest.length < bound → Outcome β (rest.length + 1)}
    (first : Follows step lexemes outcome.ending)
    (second : ∀ value rest shorter, Follows (next value) rest (behind value rest shorter).ending) :
    Follows (step >>= next) lexemes (outcome.andMaybe behind).ending := by
  cases outcome with
  | accepted value rest shorter =>
      rw [Outcome.andMaybe_accepted, Outcome.ending_within]
      exact first.bind (second value rest shorter)
  | refused cause rest => exact first.bind_refused

theorem andThen {bound : Nat} {outcome : Outcome α bound}
    {behind : α → (rest : List Lexeme) → rest.length < bound → Outcome β rest.length}
    (first : Follows step lexemes outcome.ending)
    (second : ∀ value rest shorter, Follows (next value) rest (behind value rest shorter).ending) :
    Follows (step >>= next) lexemes (outcome.andThen behind).ending := by
  refine first.andMaybe fun value rest shorter => ?_
  rw [Outcome.ending_relax]
  exact second value rest shorter

theorem map {bound : Nat} {outcome : Outcome α bound} {f : α → β}
    (first : Follows step lexemes outcome.ending) :
    Follows (step >>= fun value => Pure.pure (f value)) lexemes (outcome.map f).ending := by
  cases outcome with
  | accepted value rest shorter => exact first.bind (.pure _ rest)
  | refused cause rest => exact first.bind_refused

theorem peek {next : Option Lexeme → Step β} {ending : Except Cause β × List Lexeme}
    (seen : Follows (next lexemes.head?) lexemes ending) :
    Follows (Step.peek >>= next) lexemes ending := by
  obtain ⟨passed, whole, runs⟩ := seen
  exact ⟨passed, whole, fun advances => runs advances⟩

theorem advance {lexeme : Lexeme} {next : Unit → Step β} {ending : Except Cause β × List Lexeme}
    (behind : Follows (next ()) lexemes ending) :
    Follows (Step.advance >>= next) (lexeme :: lexemes) ending := by
  have passes : Follows Step.advance (lexeme :: lexemes) (.ok (), lexemes) :=
    ⟨[lexeme], rfl, fun _ => rfl⟩
  exact passes.bind behind

theorem expect (kind : Kind) (lexemes : List Lexeme) :
    Follows (Step.expect kind) lexemes (accept kind lexemes).ending := by
  apply Follows.peek
  cases lexemes with
  | nil => exact .refuse _ _
  | cons lexeme rest =>
      by_cases same : lexeme.kind = kind
      · simp only [accept, List.head?_cons, if_pos same, Outcome.ending_take]
        exact .advance (.pure _ _)
      · simp only [accept, List.head?_cons, if_neg same, Outcome.ending_refused]
        exact .refuse _ _

theorem expectName (lexemes : List Lexeme) :
    Follows Step.expectName lexemes (acceptName lexemes).ending :=
  (expect .identifier lexemes).map

theorem takeName {lexeme : Lexeme} (kind : lexeme.kind = .identifier) :
    Follows Step.expectName (lexeme :: rest) (.ok (nameOf lexeme), rest) := by
  have follows := expectName (lexeme :: rest)
  rwa [acceptName, accept, if_pos kind] at follows

end Follows

/-! ## Loops -/

/--
A turn of a loop, where `goesOn` is what the loop and `next` behind it do from a state on:
before there is another turn, a lexeme is passed.
-/
inductive Turns (turn : Step (Turn σ α)) (next : α → Step β)
    (goesOn : σ → List Lexeme → Except Cause β × List Lexeme) (lexemes : List Lexeme) :
    Except Cause β × List Lexeme → Prop where
  | again {state : σ} {rest : List Lexeme} :
      Follows turn lexemes (.ok (.again state), rest) →
        rest.length < lexemes.length →
        Turns turn next goesOn lexemes (goesOn state rest)
  | done {value : α} {rest : List Lexeme} {ending : Except Cause β × List Lexeme} :
      Follows turn lexemes (.ok (.done value), rest) →
        Follows (next value) rest ending →
        Turns turn next goesOn lexemes ending
  | refused {cause : Cause} {rest : List Lexeme} :
      Follows turn lexemes (.error cause, rest) →
        Turns turn next goesOn lexemes (.error cause, rest)

variable {next : α → Step β} {goesOn : σ → List Lexeme → Except Cause β × List Lexeme}
  {lexemes : List Lexeme}

theorem Turns.peek {turn : Option Lexeme → Step (Turn σ α)}
    {ending : Except Cause β × List Lexeme}
    (seen : Turns (turn lexemes.head?) next goesOn lexemes ending) :
    Turns (Step.peek >>= turn) next goesOn lexemes ending := by
  cases seen with
  | again takes shorter => exact .again takes.peek shorter
  | done leaves behind => exact .done leaves.peek behind
  | refused halts => exact .refused halts.peek

theorem Turns.bind {γ : Type} {step : Step γ} {turn : γ → Step (Turn σ α)} {value : γ}
    {rest : List Lexeme} {ending : Except Cause β × List Lexeme}
    (first : Follows step lexemes (.ok value, rest)) (fewer : rest.length ≤ lexemes.length)
    (second : Turns (turn value) next goesOn rest ending) :
    Turns (step >>= turn) next goesOn lexemes ending := by
  cases second with
  | again takes shorter => exact .again (first.bind takes) (Nat.lt_of_lt_of_le shorter fewer)
  | done leaves behind => exact .done (first.bind leaves) behind
  | refused halts => exact .refused (first.bind halts)

theorem Turns.pass (state : σ) (lexeme : Lexeme) (rest : List Lexeme) :
    Turns (Step.advance >>= fun _ => pure (.again state)) next goesOn (lexeme :: rest)
      (goesOn state rest) :=
  .again (.advance (.pure _ _)) (Nat.lt_succ_self _)

/-- A loop ends if it may take more turns than there are lexemes. -/
theorem follows_loop_then {turn : σ → Step (Turn σ α)} {most turns : Nat}
    (each : ∀ state lexemes, lexemes.length ≤ most →
      Turns (turn state) next goesOn lexemes (goesOn state lexemes))
    (within : lexemes.length ≤ most) (enough : lexemes.length < turns) (state : σ) :
    Follows (loop turn turns state >>= next) lexemes (goesOn state lexemes) := by
  induction turns generalizing state lexemes with
  | zero => exact absurd enough (Nat.not_lt_zero _)
  | succ turns ih =>
      have turn := each state lexemes within
      generalize goesOn state lexemes = ending at turn
      rw [loop, bind_assoc]
      cases turn with
      | again takes shorter => exact takes.bind (ih (by omega) (by omega) _)
      | done leaves behind =>
          refine leaves.bind ?_
          rw [pure_bind]
          exact behind
      | refused halts => exact halts.bind_refused

theorem follows_loop {goesOn : σ → List Lexeme → Except Cause α × List Lexeme}
    {turn : σ → Step (Turn σ α)} {most turns : Nat}
    (each : ∀ state lexemes, lexemes.length ≤ most →
      Turns (turn state) pure goesOn lexemes (goesOn state lexemes))
    (within : lexemes.length ≤ most) (enough : lexemes.length < turns) (state : σ) :
    Follows (loop turn turns state) lexemes (goesOn state lexemes) := by
  rw [← bind_pure (loop turn turns state)]
  exact follows_loop_then each within enough state

/-! ## Loops that gather a list -/

/-- What a reader of a list makes of the lexemes behind the first values of the list. -/
def gathered (front : List α) (ending : Except Cause (List α) × List Lexeme) :
    Except Cause (List α) × List Lexeme :=
  (ending.1.map (front ++ ·), ending.2)

@[simp] theorem gathered_nil (ending : Except Cause (List α) × List Lexeme) :
    gathered [] ending = ending := by
  obtain ⟨_ | values, rest⟩ := ending <;> rfl

@[simp] theorem gathered_gathered (front middle : List α)
    (ending : Except Cause (List α) × List Lexeme) :
    gathered front (gathered middle ending) = gathered (front ++ middle) ending := by
  obtain ⟨_ | values, rest⟩ := ending
  · rfl
  · simp [gathered, Except.map]

theorem Outcome.ending_map_append {bound : Nat} (front : List α)
    (outcome : Outcome (List α) bound) :
    (outcome.map (front ++ ·)).ending = gathered front outcome.ending := by
  cases outcome <;> rfl

/-- With some values gathered, a turn does what a reader of lists does from there on. -/
def Gathers {bound : List Lexeme → Nat} (turn : Step (Turn (List α) (List α)))
    (next : List α → Step (List α))
    (read : (lexemes : List Lexeme) → Outcome (List α) (bound lexemes)) (front : List α)
    (lexemes : List Lexeme) : Prop :=
  Turns turn next (fun front lexemes => gathered front (read lexemes).ending) lexemes
    (gathered front (read lexemes).ending)

namespace Gathers

variable {bound : List Lexeme → Nat}
  {read : (lexemes : List Lexeme) → Outcome (List α) (bound lexemes)} {front : List α}

theorem peek {turn : Option Lexeme → Step (Turn (List α) (List α))} {next : List α → Step (List α)}
    (seen : Gathers (turn lexemes.head?) next read front lexemes) :
    Gathers (Step.peek >>= turn) next read front lexemes :=
  Turns.peek seen

theorem leave {turn : Step (Turn (List α) (List α))} {rest : List Lexeme}
    (leaves : Follows turn lexemes (.ok (.done front), rest))
    (ends : (read lexemes).ending = (.ok [], rest)) :
    Gathers turn pure read front lexemes := by
  rw [Gathers, ends, gathered, Except.map, List.append_nil]
  exact .done leaves (.pure _ _)

theorem skip {next : List α → Step (List α)} {lexeme : Lexeme} {rest : List Lexeme}
    (skips : (read (lexeme :: rest)).ending = (read rest).ending) :
    Gathers (Step.advance >>= fun _ => pure (.again front)) next read front (lexeme :: rest) := by
  rw [Gathers, skips]
  exact .pass front lexeme rest

/-- The turn does what the reader does first, and takes as much. -/
theorem gather {step : Step β} {next : List α → Step (List α)} {values : β → List α}
    {most : Nat} {outcome : Outcome β most}
    {behind : β → (rest : List Lexeme) → rest.length < most → Outcome (List α) (rest.length + 1)}
    (follows : Follows step lexemes outcome.ending) (takes : most ≤ lexemes.length)
    (reads : (read lexemes).ending = (outcome.andMaybe behind).ending)
    (same : ∀ value rest shorter,
      (behind value rest shorter).ending = gathered (values value) (read rest).ending) :
    Gathers (step >>= fun value => pure (.again (front ++ values value))) next read front
      lexemes := by
  rw [Gathers, reads]
  cases outcome with
  | accepted value rest shorter =>
      rw [Outcome.andMaybe_accepted, Outcome.ending_within, same, gathered_gathered]
      exact .again (follows.bind (.pure _ _)) (Nat.lt_of_lt_of_le shorter takes)
  | refused cause rest => exact .refused follows.bind_refused

end Gathers

/-- A loop that begins with no values gathers what the reader reads. -/
theorem follows_gathering {bound : List Lexeme → Nat}
    {read : (lexemes : List Lexeme) → Outcome (List α) (bound lexemes)}
    {turn : List α → Step (Turn (List α) (List α))} {most turns : Nat}
    (each : ∀ front lexemes, lexemes.length ≤ most →
      Gathers (turn front) pure read front lexemes)
    (within : lexemes.length ≤ most) (enough : lexemes.length < turns) :
    Follows (loop turn turns []) lexemes (read lexemes).ending := by
  have whole := follows_loop each within enough []
  rwa [gathered_nil] at whole

end ContractLens.Grammar
