import ContractLens.Proofs.LineIndex.Place
import Mathlib.Data.List.Induction

/-!
# Counting places

The line of a character is told by the line feeds in front of it, and its place on
the line by the characters behind the last of them.  So all that a line index says
can be read off the recorded characters themselves: the coordinate of an offset,
the number of lines, and the number of characters on them.
-/

namespace ContractLens

/-- The number of characters behind the last line feed. -/
def sinceLineFeed (cs : List Char) : Nat :=
  (cs.reverse.takeWhile (· != '\n')).length

@[simp] theorem sinceLineFeed_concat (cs : List Char) (c : Char) :
    sinceLineFeed (cs ++ [c]) = if c = '\n' then 0 else sinceLineFeed cs + 1 := by
  by_cases feed : c = '\n' <;> simp [sinceLineFeed, feed]

theorem placeBehind_eq_count (cs : List Char) :
    placeBehind cs = ⟨cs.count '\n', sinceLineFeed cs⟩ := by
  induction cs using List.reverseRecOn with
  | nil => rfl
  | append_singleton cs c ih =>
      rw [placeBehind_concat, ih, sinceLineFeed_concat, List.count_append, Position.after]
      by_cases feed : c = '\n' <;> simp [feed]

namespace LineIndex

/-! ## Lines and characters -/

@[simp] theorem lineCount_breakLine (index : LineIndex) :
    index.breakLine.lineCount = index.lineCount + 1 := by
  simp [lineCount]

@[simp] theorem lineCount_push (index : LineIndex) (offset : Nat) :
    (index.push offset).lineCount = index.lineCount := by
  simp [lineCount, lines, push]

@[simp] theorem size_breakLine (index : LineIndex) : index.breakLine.size = index.size := by
  simp [size, offsets]

@[simp] theorem size_push (index : LineIndex) (offset : Nat) :
    (index.push offset).size = index.size + 1 := by
  simp [size, offsets, lines, push, Nat.add_assoc]

theorem lineCount_record (index : LineIndex) (offset : Nat) (cs : List Char) :
    (index.record offset cs).lineCount = index.lineCount + cs.count '\n' := by
  induction cs generalizing index offset with
  | nil => rfl
  | cons c cs ih =>
      rw [record, ih, recordCharacter, List.count_cons]
      by_cases feed : c = '\n'
      · simp only [feed, if_true, lineCount_breakLine, beq_self_eq_true]
        omega
      · simp [feed]

theorem size_record (index : LineIndex) (offset : Nat) (cs : List Char) :
    (index.record offset cs).size + cs.count '\n' = index.size + cs.length := by
  induction cs generalizing index offset with
  | nil => rfl
  | cons c cs ih =>
      have behind := ih (index.recordCharacter offset c) (offset + 1)
      rw [record, List.count_cons, List.length_cons, ← Nat.add_assoc, behind, recordCharacter]
      by_cases feed : c = '\n'
      · simp only [feed, if_true, size_breakLine, beq_self_eq_true]
        omega
      · simp only [feed, if_false, size_push, beq_iff_eq]
        omega

/-! ## The first part of a text -/

variable {cs : List Char} {length offset : Nat}

theorem holds_record_take (cs : List Char) (length : Nat) :
    (empty.record 0 (cs.take length)).Holds (cs.take length) :=
  Holds.empty.record (cs.take length)

theorem coordinate?_record_take_eq_none (outside : length ≤ offset ∨ cs[offset]? = some '\n') :
    (empty.record 0 (cs.take length)).coordinate? offset = none := by
  apply (holds_record_take cs length).coordinate?_eq_none
  rintro position ⟨c, found, noFeed, _⟩
  rw [List.getElem?_take] at found
  split at found
  · next within =>
      rcases outside with beyond | feed
      · exact Nat.not_lt_of_le beyond within
      · cases found.symm.trans feed
        exact noFeed rfl
  · cases found

/-- The coordinate of a character that is recorded counts what stands in front of it. -/
theorem coordinate?_record_take {c : Char} (within : offset < length)
    (found : cs[offset]? = some c) (noFeed : c ≠ '\n') :
    (empty.record 0 (cs.take length)).coordinate? offset =
      some ⟨(cs.take offset).count '\n' + 1, sinceLineFeed (cs.take offset) + 1⟩ := by
  have inside : (cs.take length)[offset]? = some c := by rwa [List.getElem?_take_of_lt within]
  have place : placeAt (cs.take length) offset =
      ⟨(cs.take offset).count '\n', sinceLineFeed (cs.take offset)⟩ := by
    rw [placeAt, List.take_take, Nat.min_eq_left (Nat.le_of_lt within), placeBehind_eq_count]
  exact (holds_record_take cs length).coordinate?_eq ⟨c, inside, noFeed, place⟩

end LineIndex

end ContractLens
