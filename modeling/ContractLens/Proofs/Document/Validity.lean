import ContractLens.Proofs.LineIndex.Place
import Mathlib.Data.List.Induction
import Mathlib.Data.Prod.Lex
import Mathlib.Order.Interval.Set.Defs
import Mathlib.Order.Monotone.Basic

/-!
# Valid positions

A position is valid in a text if the text has its line and the line has so many
characters.  Valid positions are the places in front of the characters of the text and
at its end: each of them has an index, the number of characters in front of it, and the
indices stand in the order of the positions.
-/

namespace ContractLens

/-- The line of a text with a number counted from zero, without its line feed. -/
def Text.line (cs : List Char) (number : Nat) : List Char :=
  (cs.splitOn '\n').getD number []

/-- The characters from one index to another. -/
def Text.between (cs : List Char) (first last : Nat) : List Char :=
  (cs.take last).drop first

theorem Text.take_append_between (cs : List Char) {first last : Nat} (ordered : first ≤ last) :
    cs.take first ++ between cs first last = cs.take last := by
  have front : (cs.take last).take first = cs.take first := by
    rw [List.take_take, Nat.min_eq_left ordered]
  rw [between, ← front, List.take_append_drop]

namespace Position

/-! ## Order -/

/-- Positions are ordered by their lines, and on a line by their characters. -/
instance : PartialOrder Position :=
  PartialOrder.lift (fun position => toLex (position.line, position.character)) <| by
    rintro ⟨line, character⟩ ⟨otherLine, otherCharacter⟩ same
    simpa using same

theorem lt_iff {first second : Position} :
    first < second ↔ first.line < second.line ∨
      (first.line = second.line ∧ first.character < second.character) :=
  Prod.Lex.toLex_lt_toLex

theorem le_iff {first second : Position} :
    first ≤ second ↔ first.line < second.line ∨
      (first.line = second.line ∧ first.character ≤ second.character) :=
  Prod.Lex.toLex_le_toLex

instance : DecidableLE Position :=
  fun _ _ => decidable_of_iff' _ le_iff

theorem line_le_of_lt {first second : Position} (before : first < second) :
    first.line ≤ second.line := by
  rw [lt_iff] at before
  omega

theorem lt_after (position : Position) (c : Char) : position < position.after c := by
  rw [lt_iff, after]
  split
  · exact .inl (Nat.lt_succ_self _)
  · exact .inr ⟨rfl, Nat.lt_succ_self _⟩

/-! ## Validity -/

/-- The text has the line of the position, and the line so many characters. -/
structure ValidIn (position : Position) (cs : List Char) : Prop where
  line : position.line ≤ cs.count '\n'
  character : position.character ≤ (Text.line cs position.line).length

instance (position : Position) (cs : List Char) : Decidable (position.ValidIn cs) :=
  decidable_of_iff
    (position.line ≤ cs.count '\n' ∧
      position.character ≤ (Text.line cs position.line).length)
    ⟨fun ⟨line, character⟩ => ⟨line, character⟩, fun ⟨line, character⟩ => ⟨line, character⟩⟩

/-- The lines above a position with their line feeds, and so many characters of its own line. -/
def front (position : Position) (cs : List Char) : List Char :=
  ((cs.splitOn '\n').take position.line).flatMap (· ++ ['\n']) ++
    (Text.line cs position.line).take position.character

/-- The number of characters in front of a position. -/
def index (position : Position) (cs : List Char) : Nat :=
  (position.front cs).length

end Position

/-! ## Fronts -/

theorem placeBehind_lt_append (front : List Char) {back : List Char} (more : back ≠ []) :
    placeBehind front < placeBehind (front ++ back) := by
  induction back using List.reverseRecOn with
  | nil => exact absurd rfl more
  | append_singleton cs c ih =>
      rw [← List.append_assoc, placeBehind_concat]
      have last := Position.lt_after (placeBehind (front ++ cs)) c
      cases cs with
      | nil => simpa using last
      | cons d ds => exact lt_trans (ih (List.cons_ne_nil d ds)) last

theorem line_add_character_placeBehind_le (cs : List Char) :
    (placeBehind cs).line + (placeBehind cs).character ≤ cs.length := by
  induction cs using List.reverseRecOn with
  | nil => simp [placeBehind, Position.zero]
  | append_singleton cs c ih =>
      rw [placeBehind_concat, List.length_append, List.length_singleton, Position.after]
      split
      · dsimp only
        omega
      · dsimp only
        omega

/-- A position counted from a character that is put in front of the text. -/
def Position.shift (c : Char) (position : Position) : Position :=
  if c = '\n' then
    { position with line := position.line + 1 }
  else if position.line = 0 then
    { position with character := position.character + 1 }
  else
    position

theorem Position.shift_after (c d : Char) (position : Position) :
    (position.after d).shift c = (position.shift c).after d := by
  obtain ⟨line, character⟩ := position
  unfold Position.shift Position.after
  by_cases feed : c = '\n' <;> by_cases other : d = '\n' <;> cases line <;> simp [feed, other]

/-- Behind a first character, places are those of the other characters, shifted by it. -/
theorem placeBehind_cons (c : Char) (cs : List Char) :
    placeBehind (c :: cs) = (placeBehind cs).shift c := by
  induction cs using List.reverseRecOn with
  | nil => by_cases feed : c = '\n' <;>
      simp [placeBehind, Position.after, Position.shift, Position.zero, feed]
  | append_singleton cs d ih =>
      rw [← List.cons_append, placeBehind_concat, placeBehind_concat, ih, Position.shift_after]

namespace Position

variable {c : Char} {cs : List Char} {position : Position}

theorem splitOn_cons (c : Char) (cs : List Char) :
    ∃ head tail, cs.splitOn '\n' = head :: tail ∧
      (c :: cs).splitOn '\n' =
        if c = '\n' then [] :: head :: tail else (c :: head) :: tail := by
  obtain ⟨head, tail, split⟩ := List.exists_cons_of_ne_nil (List.splitOn_ne_nil '\n' cs)
  refine ⟨head, tail, split, ?_⟩
  rw [List.splitOn_cons_eq_if_modifyHead, split]
  simp

theorem front_shift (c : Char) (cs : List Char) (position : Position) :
    (position.shift c).front (c :: cs) = c :: position.front cs := by
  obtain ⟨head, tail, split, whole⟩ := splitOn_cons c cs
  obtain ⟨line, character⟩ := position
  unfold front shift Text.line
  rw [whole, split]
  by_cases feed : c = '\n'
  · simp [feed]
  · cases line <;> simp [feed]

theorem line_shift_le_iff :
    (position.shift c).line ≤ (c :: cs).count '\n' ↔ position.line ≤ cs.count '\n' := by
  unfold shift
  by_cases feed : c = '\n'
  · simp [feed]
  · by_cases first : position.line = 0 <;> simp [feed, first]

theorem length_line_shift (c : Char) (cs : List Char) (position : Position) :
    (Text.line (c :: cs) (position.shift c).line).length + position.character =
      (Text.line cs position.line).length + (position.shift c).character := by
  obtain ⟨head, tail, split, whole⟩ := splitOn_cons c cs
  obtain ⟨line, character⟩ := position
  unfold shift Text.line
  rw [whole, split]
  by_cases feed : c = '\n'
  · simp [feed]
  · cases line with
    | zero =>
        simp [feed]
        omega
    | succ line => simp [feed]

theorem character_shift_le_iff :
    (position.shift c).character ≤ (Text.line (c :: cs) (position.shift c).line).length ↔
      position.character ≤ (Text.line cs position.line).length := by
  have longer := length_line_shift c cs position
  omega

theorem validIn_shift : (position.shift c).ValidIn (c :: cs) ↔ position.ValidIn cs := by
  constructor
  · intro valid
    exact ⟨line_shift_le_iff.mp valid.line, character_shift_le_iff.mp valid.character⟩
  · intro valid
    exact ⟨line_shift_le_iff.mpr valid.line, character_shift_le_iff.mpr valid.character⟩

theorem validIn_zero (cs : List Char) : Position.zero.ValidIn cs :=
  ⟨Nat.zero_le _, Nat.zero_le _⟩

@[simp] theorem front_zero (cs : List Char) : Position.zero.front cs = [] := by
  simp [front, zero]

theorem ValidIn.eq_zero (valid : position.ValidIn []) : position = .zero := by
  obtain ⟨line, character⟩ := position
  obtain rfl : line = 0 := Nat.le_zero.mp valid.line
  obtain rfl : character = 0 := Nat.le_zero.mp valid.character
  rfl

/-- Every valid position is the first one or stands behind the first character. -/
theorem ValidIn.eq_zero_or_shift (valid : position.ValidIn (c :: cs)) :
    position = .zero ∨ ∃ following : Position, position = following.shift c := by
  obtain ⟨head, tail, split, whole⟩ := splitOn_cons c cs
  have within := valid.character
  obtain ⟨line, character⟩ := position
  unfold Text.line at within
  by_cases feed : c = '\n'
  · subst feed
    cases line with
    | zero => exact .inl (by simpa [whole, zero] using within)
    | succ line => exact .inr ⟨⟨line, character⟩, rfl⟩
  · cases line with
    | zero =>
        cases character with
        | zero => exact .inl rfl
        | succ character => exact .inr ⟨⟨0, character⟩, by simp [shift, feed]⟩
    | succ line => exact .inr ⟨⟨line + 1, character⟩, by simp [shift, feed]⟩

/-- The characters in front of a valid position begin the text, and the position is behind them. -/
theorem ValidIn.placeBehind_front (valid : position.ValidIn cs) :
    position.front cs <+: cs ∧ placeBehind (position.front cs) = position := by
  -- Lines are split off from the front of the text, so the induction takes characters from there.
  induction cs generalizing position with
  | nil =>
      obtain rfl := valid.eq_zero
      simp [placeBehind]
  | cons c cs ih =>
      rcases valid.eq_zero_or_shift with rfl | ⟨following, rfl⟩
      · simp [placeBehind]
      · obtain ⟨begins, behind⟩ := ih (validIn_shift.mp valid)
        rw [front_shift, placeBehind_cons, behind]
        exact ⟨(List.prefix_cons_inj c).mpr begins, rfl⟩

end Position

theorem validIn_placeBehind {front cs : List Char} (begins : front <+: cs) :
    (placeBehind front).ValidIn cs := by
  induction front generalizing cs with
  | nil => exact Position.validIn_zero cs
  | cons c front ih =>
      obtain ⟨back, rfl⟩ := begins
      rw [placeBehind_cons, List.cons_append, Position.validIn_shift]
      exact ih (List.prefix_append front back)

theorem front_placeBehind {front cs : List Char} (begins : front <+: cs) :
    (placeBehind front).front cs = front := by
  induction front generalizing cs with
  | nil => exact Position.front_zero cs
  | cons c front ih =>
      obtain ⟨back, rfl⟩ := begins
      rw [placeBehind_cons, List.cons_append, Position.front_shift,
        ih (List.prefix_append front back)]

theorem index_placeBehind {front cs : List Char} (begins : front <+: cs) :
    (placeBehind front).index cs = front.length :=
  congrArg List.length (front_placeBehind begins)

theorem strictMonoOn_placeAt (cs : List Char) :
    StrictMonoOn (placeAt cs) (Set.Iic cs.length) := by
  intro first _ last within before
  have more : Text.between cs first last ≠ [] := by
    rw [Text.between, ← List.length_pos_iff, List.length_drop, List.length_take,
      Nat.min_eq_left within]
    exact Nat.sub_pos_of_lt before
  rw [placeAt, placeAt, ← Text.take_append_between cs (Nat.le_of_lt before)]
  exact placeBehind_lt_append (cs.take first) more

namespace Position

variable {cs : List Char} {position other : Position}

/-! ## Indices -/

theorem ValidIn.index_le (valid : position.ValidIn cs) : position.index cs ≤ cs.length :=
  valid.placeBehind_front.1.length_le

theorem ValidIn.take_index (valid : position.ValidIn cs) :
    cs.take (position.index cs) = position.front cs :=
  (List.prefix_iff_eq_take.mp valid.placeBehind_front.1).symm

theorem ValidIn.placeAt_index (valid : position.ValidIn cs) :
    placeAt cs (position.index cs) = position := by
  rw [placeAt, valid.take_index]
  exact valid.placeBehind_front.2

theorem validIn_placeAt (cs : List Char) (offset : Nat) : (placeAt cs offset).ValidIn cs :=
  validIn_placeBehind (List.take_prefix offset cs)

theorem index_placeAt {offset : Nat} (within : offset ≤ cs.length) :
    (placeAt cs offset).index cs = offset := by
  rw [placeAt, index_placeBehind (List.take_prefix offset cs), List.length_take,
    Nat.min_eq_left within]

@[simp] theorem index_zero (cs : List Char) : Position.zero.index cs = 0 := by
  simp [index]

@[simp] theorem index_shift (c : Char) (cs : List Char) (position : Position) :
    (position.shift c).index (c :: cs) = position.index cs + 1 := by
  simp [index, front_shift]

/-- A character of its line stands behind a valid position, unless it is the end of the line. -/
theorem ValidIn.getElem?_index_iff (valid : position.ValidIn cs) :
    (∃ c, cs[position.index cs]? = some c ∧ c ≠ '\n') ↔
      position.character < (Text.line cs position.line).length := by
  induction cs generalizing position with
  | nil =>
      obtain rfl := valid.eq_zero
      simp [Text.line, zero]
  | cons c cs ih =>
      rcases valid.eq_zero_or_shift with rfl | ⟨following, rfl⟩
      · obtain ⟨head, tail, _, whole⟩ := splitOn_cons c cs
        rw [index_zero, Text.line, whole]
        by_cases feed : c = '\n' <;> simp [zero, feed]
      · have longer := length_line_shift c cs following
        rw [index_shift, List.getElem?_cons_succ, ih (validIn_shift.mp valid)]
        omega

theorem ValidIn.lt_iff (valid : position.ValidIn cs) (also : other.ValidIn cs) :
    position < other ↔ position.index cs < other.index cs := by
  have places := (strictMonoOn_placeAt cs).lt_iff_lt valid.index_le also.index_le
  rwa [valid.placeAt_index, also.placeAt_index] at places

theorem ValidIn.le_iff (valid : position.ValidIn cs) (also : other.ValidIn cs) :
    position ≤ other ↔ position.index cs ≤ other.index cs := by
  have places := (strictMonoOn_placeAt cs).le_iff_le valid.index_le also.index_le
  rwa [valid.placeAt_index, also.placeAt_index] at places

theorem ValidIn.line_add_character_le (valid : position.ValidIn cs) :
    position.line + position.character ≤ cs.length := by
  obtain ⟨begins, behind⟩ := valid.placeBehind_front
  have counted := line_add_character_placeBehind_le (position.front cs)
  rw [behind] at counted
  exact Nat.le_trans counted begins.length_le

end Position

end ContractLens
