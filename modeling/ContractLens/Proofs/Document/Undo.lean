import ContractLens.Proofs.Document.Splice

/-!
# Changes that are taken back

A change that does not replace the whole text cuts it into three parts: what stands in
front of its start, what it removes, and what stands behind that.  The front is kept, and
the start is the place behind it, in the text before the change as in the text after it.
So the removed part comes back by a change at the same start, by as many characters as
were put in.
-/

namespace ContractLens

namespace Change

/-- The position at which a change begins, unless it replaces the whole text. -/
def start? : Change → Option Position
  | full _ => none
  | range start _ _ => some start
  | length start _ _ => some start

def inserted : Change → String
  | full text => text
  | range _ _ text => text
  | length _ _ text => text

/--
The change begins behind a first part of a text and removes what follows it, either up
to the place behind that or by the number of its characters.
-/
inductive Removes (front removed : String) : Change → Prop where
  | range (replacement : String) :
      Removes front removed
        (.range (placeBehind front.toList) (placeBehind (front ++ removed).toList) replacement)
  | length (replacement : String) :
      Removes front removed (.length (placeBehind front.toList) removed.length replacement)

variable {text next front removed : String} {start : Position} {change : Change}

theorem Removes.start?_eq (removes : change.Removes front removed) :
    change.start? = some (placeBehind front.toList) := by
  cases removes <;> rfl

theorem Removes.apply_eq (removes : change.Removes front removed) (back : String) :
    change.apply (front ++ removed ++ back) = .ok (front ++ change.inserted ++ back) := by
  cases removes with
  | range replacement => exact apply_range_behind front removed back replacement
  | length replacement => exact apply_length_behind front removed back replacement

theorem exists_parts (text : String) {first last : Nat} (ordered : first ≤ last) :
    ∃ front removed back : String, text = front ++ removed ++ back ∧
      front.toList = text.toList.take first ∧
        (front ++ removed).toList = text.toList.take last := by
  have parts := Text.take_append_between text.toList ordered
  refine ⟨.ofList (text.toList.take first), .ofList (Text.between text.toList first last),
    .ofList (text.toList.drop last), ?_, String.toList_ofList, ?_⟩
  · rw [← String.ofList_append, ← String.ofList_append, parts, List.take_append_drop,
      String.ofList_toList]
  · rw [← String.ofList_append, parts, String.toList_ofList]

theorem of_apply_range_eq_ok {stop : Position} {replacement : String}
    (accepted : (range start stop replacement).apply text = .ok next) :
    start.ValidIn text.toList ∧ stop.ValidIn text.toList ∧
      start.index text.toList ≤ stop.index text.toList := by
  rw [apply_range] at accepted
  split_ifs at accepted with starts ends
  obtain ⟨stops, ordered⟩ := not_or.mp ends
  exact ⟨starts, not_not.mp stops, Nat.le_of_not_lt ordered⟩

theorem of_apply_length_eq_ok {count : Nat} {replacement : String}
    (accepted : (length start count replacement).apply text = .ok next) :
    start.ValidIn text.toList ∧ start.index text.toList + count ≤ text.length := by
  rw [apply_length] at accepted
  split_ifs at accepted with starts within
  exact ⟨starts, Nat.le_of_not_lt within⟩

/-- A change that is made, and does not replace the whole text, removes a part of it. -/
theorem exists_removes (begins : change.start? = some start)
    (accepted : change.apply text = .ok next) :
    ∃ front removed back, text = front ++ removed ++ back ∧ change.Removes front removed := by
  cases change with
  | full replacement => cases begins
  | range start stop replacement =>
      obtain ⟨starts, stops, ordered⟩ := of_apply_range_eq_ok accepted
      obtain ⟨front, removed, back, parts, inFront, upTo⟩ := exists_parts text ordered
      have isStart : placeBehind front.toList = start := by
        rw [inFront]
        exact starts.placeAt_index
      have isStop : placeBehind (front ++ removed).toList = stop := by
        rw [upTo]
        exact stops.placeAt_index
      rw [← isStart, ← isStop]
      exact ⟨front, removed, back, parts, .range replacement⟩
  | length start count replacement =>
      obtain ⟨starts, within⟩ := of_apply_length_eq_ok accepted
      obtain ⟨front, removed, back, parts, inFront, upTo⟩ :=
        exists_parts text (Nat.le_add_right (start.index text.toList) count)
      have isStart : placeBehind front.toList = start := by
        rw [inFront]
        exact starts.placeAt_index
      -- Here the end is a count, which holds because the length lies within the text.
      have isCount : removed.length = count := by
        have fronts := congrArg List.length inFront
        have whole := congrArg List.length upTo
        simp only [String.length_toList, String.length_append, List.length_take] at fronts whole
        omega
      rw [← isStart, ← isCount]
      exact ⟨front, removed, back, parts, .length replacement⟩

/--
A change that is made, and does not replace the whole text, is taken back at its start,
which has the same byte offset in the text before the change and in the text after it.
-/
theorem exists_takenBack (begins : change.start? = some start)
    (accepted : change.apply text = .ok next) :
    ∃ front removed back : String,
      text = front ++ removed ++ back ∧ next = front ++ change.inserted ++ back ∧
        change.Removes front removed ∧
        byteOffset? text start = some front.utf8ByteSize ∧
        byteOffset? next start = some front.utf8ByteSize ∧
        (Change.length start change.inserted.length removed).apply next = .ok text := by
  obtain ⟨front, removed, back, rfl, removes⟩ := exists_removes begins accepted
  obtain rfl := Option.some.inj (begins.symm.trans removes.start?_eq)
  obtain rfl := Except.ok.inj (accepted.symm.trans (removes.apply_eq back))
  refine ⟨front, removed, back, rfl, rfl, removes, ?_, ?_, ?_⟩
  · exact byteOffset?_placeBehind (by simp)
  · exact byteOffset?_placeBehind (by simp)
  · exact apply_length_behind front change.inserted back removed

/-- A change that joins two lines at the end of a line and puts another two lines in. -/
theorem exists_takenBack_joined_lines :
    ∃ front removed back : String,
      "aé\nb" = front ++ removed ++ back ∧ "aé;\n\nb" = front ++ ";\n\n" ++ back ∧
        (Change.range ⟨0, 2⟩ ⟨1, 0⟩ ";\n\n").Removes front removed ∧
        byteOffset? "aé\nb" ⟨0, 2⟩ = some front.utf8ByteSize ∧
        byteOffset? "aé;\n\nb" ⟨0, 2⟩ = some front.utf8ByteSize ∧
        (Change.length ⟨0, 2⟩ 3 removed).apply "aé;\n\nb" = .ok "aé\nb" := by
  have accepted : (Change.range ⟨0, 2⟩ ⟨1, 0⟩ ";\n\n").apply "aé\nb" = .ok "aé;\n\nb" := by
    decide +kernel
  exact exists_takenBack rfl accepted

end Change

end ContractLens
