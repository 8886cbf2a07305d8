import ContractLens.Proofs.Document.Boundary
import ContractLens.Proofs.Document.Lookup
import ContractLens.Proofs.Token.Coverage

/-!
# Coordinates and byte offsets

Changes and questions count lines and characters each in their own way.  A change looks
its positions up in the text itself and goes on with byte offsets; a question looks them
up in the line index, which was filled while the text was scanned.  Once the text has been
scanned to its end both agree: the index addresses the positions in front of a character
of their line, and besides these only the end of each line has a byte offset.
-/

namespace ContractLens

/-- The position lies behind all characters of its line. -/
structure Position.EndsLine (position : Position) (cs : List Char) : Prop where
  line : position.line ≤ cs.count '\n'
  character : position.character = (Text.line cs position.line).length

/-! ## Characters at a position -/

namespace Position

variable {cs : List Char} {position : Position}

/-- A valid position has a character of its line behind it, or ends the line. -/
theorem validIn_iff_lt_or_endsLine :
    position.ValidIn cs ↔
      (position.ValidIn cs ∧ position.character < (Text.line cs position.line).length) ∨
        position.EndsLine cs := by
  constructor
  · intro valid
    rcases Nat.lt_or_eq_of_le valid.character with inLine | ends
    · exact .inl ⟨valid, inLine⟩
    · exact .inr ⟨valid.line, ends⟩
  · rintro (⟨valid, _⟩ | ends)
    · exact valid
    · exact ⟨ends.line, Nat.le_of_eq ends.character⟩

end Position

theorem standsAt_iff {cs : List Char} {offset : Nat} {position : Position} :
    StandsAt cs offset position ↔
      (position.ValidIn cs ∧ position.character < (Text.line cs position.line).length) ∧
        position.index cs = offset := by
  constructor
  · rintro ⟨c, found, noFeed, rfl⟩
    have within := (List.getElem?_eq_some_iff.mp found).1
    have valid := Position.validIn_placeAt cs offset
    have index := Position.index_placeAt (Nat.le_of_lt within)
    have here : cs[(placeAt cs offset).index cs]? = some c := by rw [index, found]
    exact ⟨⟨valid, valid.getElem?_index_iff.mp ⟨c, here, noFeed⟩⟩, index⟩
  · rintro ⟨⟨valid, inLine⟩, rfl⟩
    obtain ⟨c, found, noFeed⟩ := valid.getElem?_index_iff.mpr inLine
    exact ⟨c, found, noFeed, valid.placeAt_index⟩

/-! ## Characters at a byte offset -/

namespace Text

/-- At a byte offset stands the first of the characters that are not in front of it. -/
theorem get_byteLength_take (text : String) (count : Nat) :
    String.Pos.Raw.get text ⟨byteLength (text.toList.take count)⟩ =
      text.toList[count]?.getD default := by
  have parts := String.get_of_valid (text.toList.take count) (text.toList.drop count)
  rwa [List.take_append_drop, String.ofList_toList, ← byteLength_eq_utf8Len,
    List.headD_eq_head?_getD, List.head?_drop] at parts

theorem byteLength_take_lt_iff {text : String} {count : Nat}
    (within : count ≤ text.toList.length) :
    byteLength (text.toList.take count) < text.utf8ByteSize ↔ count < text.toList.length := by
  have whole : byteLength (text.toList.take text.toList.length) = text.utf8ByteSize := by
    rw [List.take_length, byteLength_toList]
  rw [← whole]
  exact (strictMonoOn_byteLength_take text.toList).lt_iff_lt within (Set.mem_Iic.mpr (le_refl _))

end Text

/-- The character at the byte offset of a position belongs to the line of the position. -/
theorem get_ne_lineFeed_iff {text : String} {position : Position} {bytes : Nat}
    (found : byteOffset? text position = some bytes) :
    bytes < text.utf8ByteSize ∧ String.Pos.Raw.get text ⟨bytes⟩ ≠ '\n' ↔
      position.character < (Text.line text.toList position.line).length := by
  obtain ⟨valid, rfl⟩ := byteOffset?_eq_some_iff.mp found
  rw [← valid.take_index, Text.byteLength_take_lt_iff valid.index_le, Text.get_byteLength_take,
    ← valid.getElem?_index_iff]
  cases here : text.toList[position.index text.toList]? with
  | none => simpa using here
  | some c =>
      have within := (List.getElem?_eq_some_iff.mp here).1
      simp [within]

/-! ## Texts that are scanned to their end -/

/-- The text is scanned to its end, for its tokens or for its program, and leaves the index. -/
inductive ScannedThrough (text : String) : LineIndex → Prop where
  | tokens {count : Nat}
      (ended : .endOfInput text.length ∈ ((Scanner.start text .empty).scanMany count).1) :
      ScannedThrough text ((Scanner.start text .empty).scanMany count).2.index
  | program {program : Program} (accepted : (parse text).1 = .ok program) :
      ScannedThrough text (parse text).2

theorem ScannedThrough.eq_ofText {text : String} {index : LineIndex}
    (scanned : ScannedThrough text index) : index = .ofText text := by
  cases scanned with
  | tokens ended =>
      rw [scanMany_start] at ended ⊢
      have whole := endBehind_of_mem ended
      simp only [Scanner.advance, Scanner.start, LineIndex.ofText]
      rw [whole, List.take_of_length_le (Nat.le_of_eq String.length_toList)]
  | program accepted => exact index_of_parse accepted

/-- Every text can be scanned to its end, which takes one scan more than it has lexemes. -/
theorem scannedThrough_ofText (text : String) : ScannedThrough text (.ofText text) := by
  have ended : .endOfInput text.length ∈
      ((Scanner.start text .empty).scanMany (tokensOf text).length).1 := by
    rw [scanMany_start, scannedTokens, List.take_left, tokensOf]
    exact List.mem_append_right _ (List.mem_singleton_self _)
  have scanned := ScannedThrough.tokens ended
  rwa [scanned.eq_ofText] at scanned

namespace LineIndex

/-- The positions that the index addresses and those that have a byte offset are related. -/
structure AgreesWith (index : LineIndex) (text : String) : Prop where
  /-- A position is addressed if it has a byte offset with a character of the line behind it. -/
  addressed : ∀ position : Position,
    (∃ offset, index.offset? position.toCoordinate = some offset) ↔
      ∃ bytes, byteOffset? text position = some bytes ∧ bytes < text.utf8ByteSize ∧
        String.Pos.Raw.get text ⟨bytes⟩ ≠ '\n'
  /-- Then the byte offset is the size of so many characters as the offset counts. -/
  size : ∀ (position : Position) offset bytes,
    index.offset? position.toCoordinate = some offset → byteOffset? text position = some bytes →
      offset < text.length ∧ (String.ofList (text.toList.take offset)).utf8ByteSize = bytes
  /-- Just the positions that are addressed and the ends of lines have a byte offset. -/
  accepted : ∀ position : Position,
    (∃ bytes, byteOffset? text position = some bytes) ↔
      (∃ offset, index.offset? position.toCoordinate = some offset) ∨
        position.EndsLine text.toList
  /-- The end of a line is not addressed. -/
  apart : ∀ position : Position, position.EndsLine text.toList →
    index.offset? position.toCoordinate = none

/-- The index of a text addresses the valid positions that do not end a line. -/
theorem exists_offset?_ofText_iff {text : String} {position : Position} :
    (∃ offset, (ofText text).offset? position.toCoordinate = some offset) ↔
      position.ValidIn text.toList ∧
        position.character < (Text.line text.toList position.line).length := by
  simp only [offset?_ofText, standsAt_iff, exists_and_left, exists_eq', and_true]

/-- A text that is scanned to its end has an index that agrees with its byte offsets. -/
theorem agreesWith_of_scannedThrough {text : String} {index : LineIndex}
    (scanned : ScannedThrough text index) : index.AgreesWith text := by
  obtain rfl := scanned.eq_ofText
  constructor
  case addressed =>
    intro position
    rw [exists_offset?_ofText_iff]
    constructor
    · rintro ⟨valid, inLine⟩
      have found := byteOffset?_of_validIn valid
      exact ⟨_, found, (get_ne_lineFeed_iff found).mpr inLine⟩
    · rintro ⟨bytes, found, noFeed⟩
      exact ⟨(byteOffset?_eq_some_iff.mp found).1, (get_ne_lineFeed_iff found).mp noFeed⟩
  case size =>
    intro position offset bytes addressed found
    have stands := offset?_ofText.mp addressed
    obtain ⟨⟨valid, _⟩, rfl⟩ := standsAt_iff.mp stands
    obtain ⟨_, rfl⟩ := byteOffset?_eq_some_iff.mp found
    rw [← String.length_toList, String.utf8ByteSize_ofList, ← Text.byteLength_eq_utf8Len,
      valid.take_index]
    exact ⟨stands.lt_length, rfl⟩
  case accepted =>
    intro position
    rw [exists_byteOffset?_iff, exists_offset?_ofText_iff]
    exact Position.validIn_iff_lt_or_endsLine
  case apart =>
    intro position ends
    rw [Option.eq_none_iff_forall_ne_some]
    intro offset addressed
    obtain ⟨⟨_, inLine⟩, _⟩ := standsAt_iff.mp (offset?_ofText.mp addressed)
    exact Nat.ne_of_lt inLine ends.character

/-- Neither a string over two lines nor a carriage return at the end disturbs the agreement. -/
theorem agreesWith_string_over_lines :
    Token.endOfInput 9 ∈ ((Scanner.start "é \"x\ny\" \r" .empty).scanMany 3).1 ∧
      LineIndex.AgreesWith ((Scanner.start "é \"x\ny\" \r" .empty).scanMany 3).2.index
        "é \"x\ny\" \r" := by
  have ended : Token.endOfInput 9 ∈
      ((Scanner.start "é \"x\ny\" \r" .empty).scanMany 3).1 := by
    decide +kernel
  exact ⟨ended, agreesWith_of_scannedThrough (.tokens ended)⟩

end LineIndex

end ContractLens
