import ContractLens.Document.Position

/-!
# Places of characters

The place of a character is found by counting the line feeds in front of it and
the characters behind the last of them.  The line index of a text holds every
character but the line feeds at its place, and looking up a place and looking up
an offset undo each other.
-/

namespace ContractLens

/-- The place behind some characters. -/
def placeBehind (cs : List Char) : Position :=
  cs.foldl Position.after .zero

/-- The place of the character at an offset. -/
def placeAt (cs : List Char) (offset : Nat) : Position :=
  placeBehind (cs.take offset)

@[simp] theorem placeBehind_concat (cs : List Char) (c : Char) :
    placeBehind (cs ++ [c]) = (placeBehind cs).after c := by
  simp [placeBehind]

/-- A character that is no line feed stands at an offset, and this is its place. -/
def StandsAt (cs : List Char) (offset : Nat) (position : Position) : Prop :=
  ∃ c, cs[offset]? = some c ∧ c ≠ '\n' ∧ placeAt cs offset = position

namespace StandsAt

variable {cs : List Char} {offset : Nat} {position other : Position}

theorem lt_length (stands : StandsAt cs offset position) : offset < cs.length := by
  obtain ⟨c, found, _⟩ := stands
  exact (List.getElem?_eq_some_iff.mp found).1

theorem unique (first : StandsAt cs offset position) (second : StandsAt cs offset other) :
    position = other := by
  obtain ⟨_, _, _, rfl⟩ := first
  obtain ⟨_, _, _, rfl⟩ := second
  rfl

/-- One more character stands at the place behind the others, unless it is a line feed. -/
theorem concat_iff {c : Char} :
    StandsAt (cs ++ [c]) offset position ↔
      StandsAt cs offset position ∨
        (offset = cs.length ∧ c ≠ '\n' ∧ placeBehind cs = position) := by
  unfold StandsAt placeAt
  rcases Nat.lt_trichotomy offset cs.length with within | rfl | beyond
  · have same : (cs ++ [c]).take offset = cs.take offset :=
      List.take_append_of_le_length (Nat.le_of_lt within)
    rw [List.getElem?_append_left within, same]
    simp [Nat.ne_of_lt within]
  · simp
  · have outside : (cs ++ [c])[offset]? = none := by
      apply List.getElem?_eq_none
      simpa using Nat.succ_le_of_lt beyond
    have outsideFront : cs[offset]? = none := List.getElem?_eq_none (Nat.le_of_lt beyond)
    simp [outside, outsideFront, Nat.ne_of_gt beyond]

end StandsAt

namespace LineIndex

/-! ## Halving a window -/

/-- On a sorted line the entries above an offset stand behind its place. -/
theorem lt_getD_iff {offsets : Array Nat} {offset place index : Nat}
    (sorted : offsets.toList.Pairwise (· < ·)) (holds : offsets[place]? = some offset)
    (inside : index < offsets.size) : offset < offsets.getD index 0 ↔ place < index := by
  obtain ⟨within, rfl⟩ := Array.getElem?_eq_some_iff.mp holds
  have ordered := List.pairwise_iff_getElem.mp sorted
  have entry : offsets.getD index 0 = offsets[index] := by simp [inside]
  rw [entry]
  rcases Nat.lt_trichotomy place index with before | rfl | behind
  · simpa [before] using ordered place index within inside before
  · simp
  · have above : offsets[index] < offsets[place] := ordered index place inside within behind
    omega

/-- Halving the window finds the place of an offset that is on a sorted line. -/
theorem narrow_eq {offsets : Array Nat} {offset base size place : Nat}
    (sorted : offsets.toList.Pairwise (· < ·)) (holds : offsets[place]? = some offset)
    (low : base ≤ place) (high : place < base + size) (inside : base + size ≤ offsets.size) :
    narrow offsets offset base size = place := by
  induction base, size using narrow.induct offsets offset with
  | case1 base size small =>
      rw [narrow, if_pos small]
      omega
  | case2 base size large half above ih =>
      have before := (lt_getD_iff sorted holds (by omega)).mp above
      rw [narrow, if_neg large]
      simp only [above, if_true, half]
      exact ih low (by omega) (by omega)
  | case3 base size large half notAbove ih =>
      have behind := mt (lt_getD_iff sorted holds (by omega)).mpr notAbove
      rw [narrow, if_neg large]
      simp only [notAbove, if_false, half]
      exact ih (by omega) (by omega) (by omega)

theorem placeOn?_eq_some {offsets : Array Nat} {offset place : Nat}
    (sorted : offsets.toList.Pairwise (· < ·)) (holds : offsets[place]? = some offset) :
    placeOn? offsets offset = some place := by
  have within := (Array.getElem?_eq_some_iff.mp holds).1
  have found : narrow offsets offset 0 offsets.size = place :=
    narrow_eq sorted holds (Nat.zero_le place) (by omega) (by omega)
  rw [placeOn?, found, if_pos holds]

/-! ## Contents of an index -/

theorem offset?_toCoordinate (index : LineIndex) (position : Position) :
    index.offset? position.toCoordinate =
      index.lines[position.line]?.bind (·[position.character]?) :=
  rfl

/-- The index holds every character of a text at its place, except for the line feeds. -/
structure Holds (index : LineIndex) (cs : List Char) : Prop where
  line : index.earlier.size = (placeBehind cs).line
  character : index.current.size = (placeBehind cs).character
  sorted : ∀ offsets ∈ index.lines, offsets.toList.Pairwise (· < ·)
  entries : ∀ position offset,
    index.offset? position.toCoordinate = some offset ↔ StandsAt cs offset position

theorem Holds.empty : LineIndex.empty.Holds [] := by
  constructor
  · rfl
  · rfl
  · simp
  · intro position offset
    have nothing : LineIndex.empty.offset? position.toCoordinate = none := by
      rw [offset?_toCoordinate, lines_empty]
      cases position.line <;> simp
    simp [nothing, StandsAt]

theorem offset?_breakLine (index : LineIndex) (position : Position) :
    index.breakLine.offset? position.toCoordinate = index.offset? position.toCoordinate := by
  rw [offset?_toCoordinate, offset?_toCoordinate, lines_breakLine]
  rcases Nat.lt_trichotomy position.line index.lines.length with before | last | beyond
  · rw [List.getElem?_append_left before]
  · simp [last]
  · have outside : (index.lines ++ [#[]])[position.line]? = none := by
      apply List.getElem?_eq_none
      simpa using Nat.succ_le_of_lt beyond
    rw [outside, List.getElem?_eq_none (Nat.le_of_lt beyond)]

theorem offset?_push (index : LineIndex) (position : Position) (pushed offset : Nat) :
    (index.push pushed).offset? position.toCoordinate = some offset ↔
      index.offset? position.toCoordinate = some offset ∨
        (pushed = offset ∧ ⟨index.earlier.size, index.current.size⟩ = position) := by
  obtain ⟨line, character⟩ := position
  rw [offset?_toCoordinate, offset?_toCoordinate, lines_push, lines, Position.mk.injEq]
  dsimp only
  rcases Nat.lt_trichotomy line index.earlier.size with before | rfl | beyond
  · have within : line < index.earlier.toList.length := by simpa using before
    rw [List.getElem?_append_left within, List.getElem?_append_left within]
    simp [Nat.ne_of_gt before]
  · rw [← Array.length_toList, List.getElem?_concat_length, List.getElem?_concat_length]
    rcases Nat.lt_trichotomy character index.current.size with inside | rfl | outside
    · simp [Array.getElem?_push, Nat.ne_of_lt inside, Nat.ne_of_gt inside]
    · simp
    · simp [Array.getElem?_push, Nat.ne_of_lt outside, Nat.ne_of_gt outside, Nat.le_of_lt outside]
  · have outside : ∀ last : Array Nat, (index.earlier.toList ++ [last])[line]? = none := by
      intro last
      apply List.getElem?_eq_none
      simpa using Nat.succ_le_of_lt beyond
    simp [outside, Nat.ne_of_lt beyond]

/-- A line feed starts a line and has no place in the index. -/
theorem Holds.breakLine {index : LineIndex} {cs : List Char} (holds : index.Holds cs) :
    index.breakLine.Holds (cs ++ ['\n']) := by
  have place : placeBehind (cs ++ ['\n']) = ⟨(placeBehind cs).line + 1, 0⟩ :=
    placeBehind_concat cs '\n'
  constructor
  · simp [place, LineIndex.breakLine, holds.line]
  · simp [place, LineIndex.breakLine]
  · intro offsets member
    rw [lines_breakLine] at member
    rcases List.mem_append.mp member with before | new
    · exact holds.sorted offsets before
    · simp [List.mem_singleton.mp new]
  · intro position offset
    rw [offset?_breakLine, holds.entries, StandsAt.concat_iff]
    simp

theorem Holds.push {index : LineIndex} {cs : List Char} {c : Char} (holds : index.Holds cs)
    (other : c ≠ '\n') : (index.push cs.length).Holds (cs ++ [c]) := by
  have place : placeBehind (cs ++ [c]) =
      ⟨(placeBehind cs).line, (placeBehind cs).character + 1⟩ := by
    rw [placeBehind_concat, Position.after, if_neg other]
  have current : ∀ entry ∈ index.current, entry < cs.length := by
    intro entry member
    obtain ⟨character, found⟩ := Array.mem_iff_getElem?.mp member
    have held : index.offset? (Position.mk index.earlier.size character).toCoordinate =
        some entry := by
      rw [offset?_toCoordinate, lines, ← Array.length_toList, List.getElem?_concat_length]
      exact found
    exact ((holds.entries _ _).mp held).lt_length
  constructor
  · simp [place, LineIndex.push, holds.line]
  · simp [place, LineIndex.push, holds.character]
  · intro offsets member
    rw [lines_push] at member
    rcases List.mem_append.mp member with before | last
    · exact holds.sorted offsets (List.mem_append_left _ before)
    · rw [List.mem_singleton.mp last, Array.toList_push, List.pairwise_append]
      have sorted := holds.sorted index.current (by simp [lines])
      exact ⟨sorted, List.pairwise_singleton _ _, by simpa using current⟩
  · intro position offset
    have behind : (⟨index.earlier.size, index.current.size⟩ : Position) = placeBehind cs := by
      rw [holds.line, holds.character]
    rw [offset?_push, holds.entries, StandsAt.concat_iff, behind, eq_comm (b := offset)]
    simp [other]

theorem Holds.record {index : LineIndex} {front : List Char} (holds : index.Holds front)
    (back : List Char) : (index.record front.length back).Holds (front ++ back) := by
  induction back generalizing index front with
  | nil => simpa [LineIndex.record] using holds
  | cons c cs ih =>
      have step : (index.recordCharacter front.length c).Holds (front ++ [c]) := by
        unfold recordCharacter
        by_cases feed : c = '\n'
        · subst feed
          rw [if_pos rfl]
          exact holds.breakLine
        · rw [if_neg feed]
          exact holds.push feed
      have behind := ih step
      rw [List.length_append, List.length_singleton, List.append_assoc] at behind
      exact behind

theorem holds_ofText (text : String) : (ofText text).Holds text.toList :=
  Holds.empty.record text.toList

theorem offset?_of_coordinate? {index : LineIndex} {offset : Nat} {coordinate : Coordinate}
    (found : index.coordinate? offset = some coordinate) :
    ∃ position : Position, coordinate = position.toCoordinate ∧
      index.offset? position.toCoordinate = some offset := by
  obtain ⟨⟨offsets, number⟩, member, placed⟩ := List.exists_of_findSome?_eq_some found
  obtain ⟨place, onLine, rfl⟩ := Option.map_eq_some_iff.mp placed
  refine ⟨⟨number, place⟩, rfl, ?_⟩
  rw [offset?_toCoordinate, List.mem_zipIdx_iff_getElem?.mp member]
  exact getElem?_of_placeOn? onLine

/-- An offset that stands on one of several sorted lines is found. -/
theorem exists_coordinate?_eq {index : LineIndex} {offset : Nat} {position : Position}
    (sorted : ∀ offsets ∈ index.lines, offsets.toList.Pairwise (· < ·))
    (held : index.offset? position.toCoordinate = some offset) :
    ∃ coordinate, index.coordinate? offset = some coordinate := by
  obtain ⟨offsets, isLine, entry⟩ := Option.bind_eq_some_iff.mp held
  have onLine : placeOn? offsets offset = some position.character :=
    placeOn?_eq_some (sorted offsets (List.mem_of_getElem? isLine)) entry
  rw [← Option.isSome_iff_exists, coordinate?, List.findSome?_isSome_iff]
  refine ⟨(offsets, position.line), List.mem_zipIdx_iff_getElem?.mpr isLine, ?_⟩
  simp [onLine]

theorem Holds.coordinate?_eq {index : LineIndex} {cs : List Char} {offset : Nat}
    {position : Position} (holds : index.Holds cs) (stands : StandsAt cs offset position) :
    index.coordinate? offset = some position.toCoordinate := by
  obtain ⟨coordinate, found⟩ :=
    exists_coordinate?_eq holds.sorted ((holds.entries position offset).mpr stands)
  obtain ⟨other, rfl, held⟩ := offset?_of_coordinate? found
  rw [found, ((holds.entries _ _).mp held).unique stands]

theorem Holds.coordinate?_eq_none {index : LineIndex} {cs : List Char} {offset : Nat}
    (holds : index.Holds cs) (away : ∀ position, ¬ StandsAt cs offset position) :
    index.coordinate? offset = none := by
  cases found : index.coordinate? offset with
  | none => rfl
  | some coordinate =>
      obtain ⟨position, _, held⟩ := offset?_of_coordinate? found
      exact absurd ((holds.entries _ _).mp held) (away position)

end LineIndex

end ContractLens
