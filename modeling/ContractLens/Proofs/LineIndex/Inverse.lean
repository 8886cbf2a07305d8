import ContractLens.Proofs.LineIndex.Place

/-!
# Offsets and their coordinates

An index is filled entry by entry: a line is started, or the offset of a character is
recorded on the current line.  If every offset is above those recorded before it, the
offsets ascend from line to line as they do along each line.  So an offset has one place
at most, halving finds it there, and looking an offset up and reading a coordinate undo
each other, with empty lines and with gaps between the offsets.
-/

namespace ContractLens

/-- What is entered into a line index: a new line, or the offset of a character. -/
inductive Entry where
  | newLine
  | character (offset : Nat)
  deriving DecidableEq, Repr

def Entry.offset? : Entry → Option Nat
  | newLine => none
  | character offset => some offset

/-- A coordinate is in front of another one on an earlier line, or earlier on the same line. -/
def Coordinate.Before (first second : Coordinate) : Prop :=
  first.line < second.line ∨ (first.line = second.line ∧ first.character < second.character)

theorem Coordinate.before_trichotomy (first second : Coordinate) :
    first.Before second ∨ first = second ∨ second.Before first := by
  rw [Coordinate.mk.injEq, Before, Before]
  omega

namespace LineIndex

def enter (index : LineIndex) : Entry → LineIndex
  | .newLine => index.breakLine
  | .character offset => index.push offset

/-- The index of entries that are made one after the other, from an empty index on. -/
def ofEntries (entries : List Entry) : LineIndex :=
  entries.foldl enter empty

/-! ## Recorded offsets -/

theorem offsets_enter (index : LineIndex) (entry : Entry) :
    (index.enter entry).offsets = index.offsets ++ entry.offset?.toList := by
  cases entry with
  | newLine => simp [enter, offsets, Entry.offset?]
  | character offset => simp [enter, offsets, lines, push, Entry.offset?]

theorem offsets_foldl_enter (index : LineIndex) (entries : List Entry) :
    (entries.foldl enter index).offsets = index.offsets ++ entries.filterMap Entry.offset? := by
  induction entries generalizing index with
  | nil => simp
  | cons entry entries ih =>
      rw [List.foldl_cons, ih, offsets_enter, List.append_assoc, List.filterMap_cons]
      cases entry.offset? <;> rfl

/-- The offsets of an index are the ones that were recorded. -/
theorem offsets_ofEntries (entries : List Entry) :
    (ofEntries entries).offsets = entries.filterMap Entry.offset? :=
  offsets_foldl_enter empty entries

variable {index : LineIndex} {offset other : Nat} {coordinate first second : Coordinate}

/-- What stands at a coordinate stands at a place counted from zero. -/
theorem exists_position_of_offset? (held : index.offset? coordinate = some offset) :
    ∃ position : Position, coordinate = position.toCoordinate ∧
      ∃ offsets, index.lines[position.line]? = some offsets ∧
        offsets[position.character]? = some offset := by
  obtain ⟨line, character⟩ := coordinate
  cases line with
  | zero => cases held
  | succ line =>
      cases character with
      | zero => cases held
      | succ character => exact ⟨⟨line, character⟩, rfl, Option.bind_eq_some_iff.mp held⟩

theorem mem_offsets :
    offset ∈ index.offsets ↔ ∃ coordinate, index.offset? coordinate = some offset := by
  rw [offsets, List.mem_flatMap]
  constructor
  · rintro ⟨offsets, isLine, member⟩
    obtain ⟨line, atLine⟩ := List.mem_iff_getElem?.mp isLine
    obtain ⟨character, entry⟩ := Array.mem_iff_getElem?.mp (Array.mem_toList_iff.mp member)
    refine ⟨(Position.mk line character).toCoordinate, ?_⟩
    rw [offset?_toCoordinate, atLine]
    exact entry
  · rintro ⟨coordinate, held⟩
    obtain ⟨position, _, offsets, atLine, entry⟩ := exists_position_of_offset? held
    exact ⟨offsets, List.mem_of_getElem? atLine,
      Array.mem_toList_iff.mpr (Array.mem_of_getElem? entry)⟩

/-- Nothing stands on line or character zero, behind the last line or behind the end of a line. -/
theorem offset?_eq_none_iff :
    index.offset? coordinate = none ↔
      coordinate.line = 0 ∨ coordinate.character = 0 ∨ index.lineCount < coordinate.line ∨
        ∃ offsets, index.lines[coordinate.line - 1]? = some offsets ∧
          offsets.size < coordinate.character := by
  obtain ⟨line, character⟩ := coordinate
  cases line with
  | zero => simp [offset?]
  | succ line =>
      cases character with
      | zero => simp [offset?]
      | succ character =>
          cases atLine : index.lines[line]? with
          | none =>
              have beyond : index.lines.length ≤ line := List.getElem?_eq_none_iff.mp atLine
              simp only [offset?, atLine, Option.bind_none, true_iff]
              exact .inr (.inr (.inl (Nat.lt_succ_of_le beyond)))
          | some offsets =>
              have within : line < index.lines.length := (List.getElem?_eq_some_iff.mp atLine).1
              simp only [offset?, atLine, Option.bind_some, Array.getElem?_eq_none_iff, lineCount,
                Nat.add_sub_cancel, Option.some.injEq, exists_eq_left']
              omega

/-! ## Ascending offsets -/

section Ascending

variable (ascending : index.offsets.Pairwise (· < ·))

include ascending

/-- Offsets that ascend through the index ascend along each of its lines. -/
theorem sorted_of_ascending : ∀ offsets ∈ index.lines, offsets.toList.Pairwise (· < ·) :=
  (List.pairwise_flatMap.mp ascending).1

theorem lt_of_before (atFirst : index.offset? first = some offset)
    (atSecond : index.offset? second = some other) (before : first.Before second) :
    offset < other := by
  obtain ⟨place, rfl, offsets, isLine, entry⟩ := exists_position_of_offset? atFirst
  obtain ⟨otherPlace, rfl, otherOffsets, isOtherLine, otherEntry⟩ :=
    exists_position_of_offset? atSecond
  obtain ⟨alongLines, throughLines⟩ := List.pairwise_flatMap.mp ascending
  rcases before with above | ⟨same, inFront⟩
  · obtain ⟨within, rfl⟩ := List.getElem?_eq_some_iff.mp isLine
    obtain ⟨otherWithin, rfl⟩ := List.getElem?_eq_some_iff.mp isOtherLine
    exact List.pairwise_iff_getElem.mp throughLines _ _ within otherWithin
      (Nat.lt_of_succ_lt_succ above) offset (by simpa using Array.mem_of_getElem? entry) other
      (by simpa using Array.mem_of_getElem? otherEntry)
  · have sameLine : place.line = otherPlace.line := Nat.succ.inj same
    rw [← sameLine, isLine] at isOtherLine
    cases isOtherLine
    obtain ⟨within, rfl⟩ := Array.getElem?_eq_some_iff.mp entry
    obtain ⟨otherWithin, rfl⟩ := Array.getElem?_eq_some_iff.mp otherEntry
    have sorted := alongLines offsets (List.mem_of_getElem? isLine)
    exact List.pairwise_iff_getElem.mp sorted _ _ within otherWithin
      (Nat.lt_of_succ_lt_succ inFront)

theorem before_iff_lt (atFirst : index.offset? first = some offset)
    (atSecond : index.offset? second = some other) :
    first.Before second ↔ offset < other := by
  refine ⟨lt_of_before ascending atFirst atSecond, fun lower => ?_⟩
  rcases first.before_trichotomy second with before | rfl | behind
  · exact before
  · cases atFirst.symm.trans atSecond
    exact absurd lower (Nat.lt_irrefl offset)
  · exact absurd lower (Nat.lt_asymm (lt_of_before ascending atSecond atFirst behind))

theorem coordinate_unique (atFirst : index.offset? first = some offset)
    (atSecond : index.offset? second = some offset) : first = second := by
  rcases first.before_trichotomy second with before | same | behind
  · exact absurd (lt_of_before ascending atFirst atSecond before) (Nat.lt_irrefl offset)
  · exact same
  · exact absurd (lt_of_before ascending atSecond atFirst behind) (Nat.lt_irrefl offset)

theorem coordinate?_eq_some_iff :
    index.coordinate? offset = some coordinate ↔ index.offset? coordinate = some offset := by
  constructor
  · intro found
    obtain ⟨position, rfl, held⟩ := offset?_of_coordinate? found
    exact held
  · intro held
    obtain ⟨position, rfl, _⟩ := exists_position_of_offset? held
    obtain ⟨coordinate, found⟩ := exists_coordinate?_eq (sorted_of_ascending ascending) held
    obtain ⟨other, rfl, heldThere⟩ := offset?_of_coordinate? found
    rw [found, coordinate_unique ascending heldThere held]

end Ascending

/-! ## Both ways -/

/-- An index of these offsets leads from offsets to coordinates and back. -/
structure Inverts (index : LineIndex) (recorded : List Nat) : Prop where
  /-- Looking an offset up and reading a coordinate undo each other. -/
  inverse : ∀ offset coordinate,
    index.coordinate? offset = some coordinate ↔ index.offset? coordinate = some offset
  /-- Just the recorded offsets have a coordinate. -/
  known : ∀ offset, (index.coordinate? offset).isSome = true ↔ offset ∈ recorded
  /-- Coordinates are different if their offsets are, and they stand in the same order. -/
  ordered : ∀ offset other first second, index.coordinate? offset = some first →
    index.coordinate? other = some second →
      (first = second ↔ offset = other) ∧ (first.Before second ↔ offset < other)
  /-- Nothing stands outside the lines, and only there. -/
  outside : ∀ coordinate, index.offset? coordinate = none ↔
    coordinate.line = 0 ∨ coordinate.character = 0 ∨ index.lineCount < coordinate.line ∨
      ∃ offsets, index.lines[coordinate.line - 1]? = some offsets ∧
        offsets.size < coordinate.character
  /-- Line and character on their own are the parts of the coordinate. -/
  parts : ∀ offset line character, index.coordinate? offset = some ⟨line, character⟩ ↔
    index.line? offset = some line ∧ index.character? offset = some character

/-- If the recorded offsets ascend, offsets and coordinates lead to each other. -/
theorem inverts_ofEntries {entries : List Entry}
    (ascending : (entries.filterMap Entry.offset?).Pairwise (· < ·)) :
    (ofEntries entries).Inverts (entries.filterMap Entry.offset?) := by
  rw [← offsets_ofEntries] at ascending ⊢
  constructor
  case inverse => exact fun offset coordinate => coordinate?_eq_some_iff ascending
  case known =>
    intro offset
    simp only [Option.isSome_iff_exists, coordinate?_eq_some_iff ascending, mem_offsets]
  case ordered =>
    intro offset other first second atFirst atSecond
    rw [coordinate?_eq_some_iff ascending] at atFirst atSecond
    refine ⟨⟨?_, ?_⟩, before_iff_lt ascending atFirst atSecond⟩
    · rintro rfl
      exact Option.some.inj (atFirst.symm.trans atSecond)
    · rintro rfl
      exact coordinate_unique ascending atFirst atSecond
  case outside => exact fun coordinate => offset?_eq_none_iff
  case parts =>
    intro offset line character
    simp only [line?, character?, Option.map_eq_some_iff]
    constructor
    · intro found
      exact ⟨⟨_, found, rfl⟩, ⟨_, found, rfl⟩⟩
    · rintro ⟨⟨coordinate, found, rfl⟩, ⟨other, foundAgain, rfl⟩⟩
      cases found.symm.trans foundAgain
      exact found

/-- With an empty line and gaps between the offsets, the last one is found on the third line. -/
theorem inverts_with_gaps :
    [3, 5, 9].Pairwise (· < ·) ∧
      (ofEntries [.character 3, .newLine, .newLine, .character 5, .character 9]).Inverts
        [3, 5, 9] ∧
      (ofEntries [.character 3, .newLine, .newLine, .character 5, .character 9]).coordinate? 9 =
        some ⟨3, 2⟩ := by
  have ascending : [3, 5, 9].Pairwise (· < ·) := by decide
  have inverts : (ofEntries [.character 3, .newLine, .newLine, .character 5,
      .character 9]).Inverts [3, 5, 9] := inverts_ofEntries ascending
  exact ⟨ascending, inverts, (inverts.inverse 9 ⟨3, 2⟩).mpr rfl⟩

end LineIndex

end ContractLens
