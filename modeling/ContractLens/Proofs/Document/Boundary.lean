import ContractLens.Proofs.Document.Validity
import Mathlib.Data.String.Basic

/-!
# Byte offsets of positions

The byte offsets of valid positions are the boundaries between the characters of a text,
with both ends of it: no two positions share an offset, no boundary is left out, and the
offsets stand in the order of the positions.
-/

namespace ContractLens

/-! ## Bytes of a first part -/

namespace Text

theorem byteLength_eq_utf8Len (cs : List Char) : byteLength cs = String.utf8Len cs := by
  induction cs with
  | nil => rfl
  | cons c cs ih => rw [byteLength_cons, String.utf8Len_cons, ih, Nat.add_comm]

theorem byteLength_toList (text : String) : byteLength text.toList = text.utf8ByteSize := by
  rw [byteLength_eq_utf8Len, ← String.utf8ByteSize_ofList, String.ofList_toList]

theorem strictMonoOn_byteLength_take (cs : List Char) :
    StrictMonoOn (fun count => byteLength (cs.take count)) (Set.Iic cs.length) := by
  intro first _ last within before
  induction cs generalizing first last with
  | nil => exact absurd within (Nat.not_le_of_lt (Nat.zero_lt_of_lt before))
  | cons c cs ih =>
      obtain ⟨last, rfl⟩ := Nat.exists_eq_succ_of_ne_zero (Nat.ne_zero_of_lt before)
      have inside : last ≤ cs.length := Nat.le_of_succ_le_succ within
      cases first with
      | zero =>
          have positive := Char.utf8Size_pos c
          simp only [List.take_zero, List.take_succ_cons, byteLength_nil, byteLength_cons]
          omega
      | succ first =>
          have earlier : first < last := Nat.lt_of_succ_lt_succ before
          have step := ih (Nat.le_trans (Nat.le_of_lt earlier) inside) inside earlier
          simpa using step

theorem isValid_iff_exists_take {text : String} {offset : Nat} :
    String.Pos.Raw.IsValid text ⟨offset⟩ ↔
      ∃ count ≤ text.toList.length, byteLength (text.toList.take count) = offset := by
  simp only [String.Pos.Raw.isValid_iff_exists_take_toList, String.utf8ByteSize_ofList,
    ← byteLength_eq_utf8Len]
  constructor
  · rintro ⟨count, rfl⟩
    refine ⟨min count text.toList.length, Nat.min_le_right _ _, ?_⟩
    rw [← List.take_eq_take_min]
  · rintro ⟨count, _, rfl⟩
    exact ⟨count, rfl⟩

end Text

/-! ## Finding the offset of a position -/

theorem exists_prefix_cons {α : Type} {c : α} {cs : List α} {holds : List α → Prop} :
    (∃ more, more <+: c :: cs ∧ holds more) ↔
      holds [] ∨ ∃ more, more <+: cs ∧ holds (c :: more) := by
  simp only [List.prefix_cons_iff, or_and_right, exists_or, exists_eq_left]
  refine or_congr Iff.rfl ⟨?_, ?_⟩
  · rintro ⟨_, ⟨more, rfl, begins⟩, property⟩
    exact ⟨more, begins, property⟩
  · rintro ⟨more, begins, property⟩
    exact ⟨_, ⟨more, rfl, begins⟩, property⟩

/-- The offset of a position in the rest of a text is that of a first part that ends there. -/
theorem byteOffsetFrom?_eq_some_iff {position : Position} {offset : Nat} (front cs : List Char) :
    byteOffsetFrom? position (placeBehind front) (Text.byteLength front) cs = some offset ↔
      ∃ more, more <+: cs ∧ placeBehind (front ++ more) = position ∧
        Text.byteLength (front ++ more) = offset := by
  induction cs generalizing front with
  | nil => simp [byteOffsetFrom?, List.prefix_nil]
  | cons c cs ih =>
      have onward := ih (front ++ [c])
      simp only [placeBehind_concat, Text.byteLength_append, Text.byteLength_cons,
        Text.byteLength_nil, Nat.add_zero, List.append_assoc, List.singleton_append] at onward
      have later : ∀ more, placeBehind front < placeBehind (front ++ c :: more) :=
        fun more => placeBehind_lt_append front (List.cons_ne_nil c more)
      rw [exists_prefix_cons, List.append_nil, byteOffsetFrom?]
      by_cases reached : placeBehind front = position
      · have none : ¬ ∃ more, more <+: cs ∧ placeBehind (front ++ c :: more) = position ∧
            Text.byteLength (front ++ c :: more) = offset := by
          rintro ⟨more, _, behind, _⟩
          have before := later more
          rw [reached, behind] at before
          exact lt_irrefl position before
        rw [if_pos reached, or_iff_left none, Option.some_inj]
        exact (and_iff_right reached).symm
      rw [if_neg reached, or_iff_right fun here => reached here.1]
      by_cases passed : position.line < (placeBehind front).line
      · -- The line of a place never goes back, so no longer first part ends at the position.
        rw [if_pos passed]
        refine iff_of_false nofun ?_
        rintro ⟨more, _, rfl, _⟩
        exact Nat.not_le_of_lt passed (Position.line_le_of_lt (later more))
      · rw [if_neg passed, onward]
        simp only [Text.byteLength_append, Text.byteLength_cons]

/-- A position has an offset if it is valid: so many bytes as stand in front of it. -/
theorem byteOffset?_eq_some_iff {text : String} {position : Position} {offset : Nat} :
    byteOffset? text position = some offset ↔
      position.ValidIn text.toList ∧ Text.byteLength (position.front text.toList) = offset := by
  rw [byteOffset?, show Position.zero = placeBehind [] from rfl, ← Text.byteLength_nil,
    byteOffsetFrom?_eq_some_iff]
  simp only [List.nil_append]
  constructor
  · rintro ⟨front, begins, rfl, rfl⟩
    exact ⟨validIn_placeBehind begins, by rw [front_placeBehind begins]⟩
  · rintro ⟨valid, rfl⟩
    obtain ⟨begins, behind⟩ := valid.placeBehind_front
    exact ⟨position.front text.toList, begins, behind, rfl⟩

theorem byteOffset?_eq_none_iff {text : String} {position : Position} :
    byteOffset? text position = none ↔ ¬ position.ValidIn text.toList := by
  rw [Option.eq_none_iff_forall_ne_some]
  simp [byteOffset?_eq_some_iff]

theorem exists_byteOffset?_iff {text : String} {position : Position} :
    (∃ bytes, byteOffset? text position = some bytes) ↔ position.ValidIn text.toList := by
  simp [byteOffset?_eq_some_iff]

/-- The end of a line and the place behind the last line feed are valid, and none behind them. -/
example : byteOffset? "é\n" ⟨0, 1⟩ = some 2 ∧ byteOffset? "é\n" ⟨1, 0⟩ = some 3 ∧
    byteOffset? "é\n" ⟨0, 2⟩ = none ∧ byteOffset? "é\n" ⟨1, 1⟩ = none := by
  decide +kernel

theorem byteOffset?_of_validIn {text : String} {position : Position}
    (valid : position.ValidIn text.toList) :
    byteOffset? text position =
      some (Text.byteLength (text.toList.take (position.index text.toList))) := by
  rw [byteOffset?_eq_some_iff, valid.take_index]
  exact ⟨valid, rfl⟩

theorem byteOffset?_placeAt (text : String) {count : Nat} (within : count ≤ text.toList.length) :
    byteOffset? text (placeAt text.toList count) =
      some (Text.byteLength (text.toList.take count)) := by
  rw [byteOffset?_of_validIn (Position.validIn_placeAt _ count), Position.index_placeAt within]

theorem byteOffset?_placeBehind {front text : String} (begins : front.toList <+: text.toList) :
    byteOffset? text (placeBehind front.toList) = some front.utf8ByteSize := by
  rw [byteOffset?_eq_some_iff, front_placeBehind begins, Text.byteLength_toList]
  exact ⟨validIn_placeBehind begins, rfl⟩

/-! ## Boundaries -/

variable {text : String} {position other : Position} {offset first last : Nat}

theorem isValid_of_byteOffset? (found : byteOffset? text position = some offset) :
    String.Pos.Raw.IsValid text ⟨offset⟩ := by
  obtain ⟨valid, rfl⟩ := byteOffset?_eq_some_iff.mp found
  rw [Text.isValid_iff_exists_take, ← valid.take_index]
  exact ⟨_, valid.index_le, rfl⟩

theorem lt_iff_of_byteOffset? (found : byteOffset? text position = some first)
    (also : byteOffset? text other = some last) : position < other ↔ first < last := by
  obtain ⟨valid, rfl⟩ := byteOffset?_eq_some_iff.mp found
  obtain ⟨valid', rfl⟩ := byteOffset?_eq_some_iff.mp also
  have bytes := (Text.strictMonoOn_byteLength_take text.toList).lt_iff_lt valid.index_le
    valid'.index_le
  rw [valid.lt_iff valid', ← bytes, valid.take_index, valid'.take_index]

theorem eq_of_byteOffset? (found : byteOffset? text position = some offset)
    (also : byteOffset? text other = some offset) : position = other := by
  obtain ⟨valid, rfl⟩ := byteOffset?_eq_some_iff.mp found
  obtain ⟨valid', same⟩ := byteOffset?_eq_some_iff.mp also
  rw [← valid.take_index, ← valid'.take_index] at same
  have index := (Text.strictMonoOn_byteLength_take text.toList).injOn valid'.index_le
    valid.index_le same
  rw [← valid.placeAt_index, ← valid'.placeAt_index, index]

theorem existsUnique_of_isValid (boundary : String.Pos.Raw.IsValid text ⟨offset⟩) :
    ∃! position, byteOffset? text position = some offset := by
  obtain ⟨count, within, rfl⟩ := Text.isValid_iff_exists_take.mp boundary
  have found := byteOffset?_placeAt text within
  exact ⟨_, found, fun other also => eq_of_byteOffset? also found⟩

namespace Document

/-- The valid positions of a text are its character boundaries, in order. -/
structure Aligned (text : String) : Prop where
  /-- A position has an offset if it is valid, and this is the size of what stands in front. -/
  offset : ∀ position offset, byteOffset? text position = some offset ↔
    position.ValidIn text.toList ∧
      (String.ofList (position.front text.toList)).utf8ByteSize = offset
  /-- No two positions share an offset. -/
  injective : ∀ position other offset, byteOffset? text position = some offset →
    byteOffset? text other = some offset → position = other
  /-- An offset is a boundary between characters. -/
  boundary : ∀ position offset, byteOffset? text position = some offset →
    String.Pos.Raw.IsValid text ⟨offset⟩
  /-- Every boundary is the offset of exactly one position. -/
  surjective : ∀ offset, String.Pos.Raw.IsValid text ⟨offset⟩ →
    ∃! position, byteOffset? text position = some offset
  /-- So are the start and the end of the text. -/
  ends : (∃! position, byteOffset? text position = some 0) ∧
    ∃! position, byteOffset? text position = some text.utf8ByteSize
  /-- Offsets stand in the order of the positions. -/
  ordered : ∀ position other first last, byteOffset? text position = some first →
    byteOffset? text other = some last → (position < other ↔ first < last)
  /-- A valid position counts no more than the characters of the text. -/
  counted : ∀ position offset, byteOffset? text position = some offset →
    position.line + position.character ≤ text.length

/-- The positions of every text are aligned with its character boundaries. -/
theorem aligned (text : String) : Aligned text where
  offset position offset := by
    rw [byteOffset?_eq_some_iff, Text.byteLength_eq_utf8Len, String.utf8ByteSize_ofList]
  injective _ _ _ := eq_of_byteOffset?
  boundary _ _ := isValid_of_byteOffset?
  surjective _ := existsUnique_of_isValid
  ends := ⟨existsUnique_of_isValid String.Pos.Raw.isValid_zero,
    existsUnique_of_isValid String.Pos.Raw.isValid_rawEndPos⟩
  ordered _ _ _ _ := lt_iff_of_byteOffset?
  counted position offset found := by
    rw [← String.length_toList]
    exact (byteOffset?_eq_some_iff.mp found).1.line_add_character_le

end Document

end ContractLens
