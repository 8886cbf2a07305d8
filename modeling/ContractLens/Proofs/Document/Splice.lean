import ContractLens.Document.Change
import ContractLens.Proofs.Document.Boundary

/-!
# Changes as splices

A change looks its positions up as byte offsets and replaces the bytes between them.
What comes out is said in characters: the characters in front of the one index, the
replacement, and the characters behind the other.  A change is refused exactly where
these indices do not exist or are in the wrong order, and then the text stays as it
is; every byte offset that is used is a boundary between characters.
-/

namespace ContractLens

variable {text : String} {start stop : Position} {first last count : Nat}

/-- The text with the characters from one index to another replaced. -/
def splice (text : String) (first last : Nat) (replacement : String) : String :=
  String.ofList (text.toList.take first ++ replacement.toList ++ text.toList.drop last)

/-! ## Bytes and characters -/

theorem Text.takeBytes_take (cs : List Char) (count : Nat) :
    takeBytes (byteLength (cs.take count)) cs = cs.take count := by
  have parts := takeBytes_byteLength (cs.take count) (cs.drop count)
  rwa [List.take_append_drop] at parts

theorem Text.dropBytes_take (cs : List Char) (count : Nat) :
    dropBytes (byteLength (cs.take count)) cs = cs.drop count := by
  have parts := dropBytes_byteLength (cs.take count) (cs.drop count)
  rwa [List.take_append_drop] at parts

/-- Replacing bytes from boundary to boundary is replacing characters. -/
theorem replaceBytes_take (text : String) (first last : Nat) (replacement : String) :
    replaceBytes text (Text.byteLength (text.toList.take first))
      (Text.byteLength (text.toList.take last)) replacement =
        splice text first last replacement := by
  rw [replaceBytes, Text.takeBytes_take, Text.dropBytes_take, splice]

/-- So many characters behind a boundary there is another one, unless the text ends before. -/
theorem byteOffsetAfter?_take (within : first ≤ text.toList.length) :
    byteOffsetAfter? text (Text.byteLength (text.toList.take first)) count =
      if first + count ≤ text.toList.length then
        some (Text.byteLength (text.toList.take (first + count)))
      else
        none := by
  rw [byteOffsetAfter?, Text.dropBytes_take, List.take_add, Text.byteLength_append,
    List.length_drop]
  congr 1
  exact propext (by omega)

/-- The offset of a valid position counts if it does not lie in front of another one. -/
theorem filter_byteOffset? (inside : first ≤ text.toList.length)
    (stops : stop.ValidIn text.toList) :
    (byteOffset? text stop).filter (Text.byteLength (text.toList.take first) ≤ ·) =
      if stop.index text.toList < first then none
      else some (Text.byteLength (text.toList.take (stop.index text.toList))) := by
  have ordered := (Text.strictMonoOn_byteLength_take text.toList).le_iff_le inside stops.index_le
  simp only [byteOffset?_of_validIn stops, Option.filter_some, decide_eq_true_eq]
  by_cases reversed : stop.index text.toList < first
  · rw [if_pos reversed, if_neg (ordered.not.mpr (Nat.not_le_of_lt reversed))]
  · rw [if_neg reversed, if_pos (ordered.mpr (Nat.le_of_not_lt reversed))]

/-! ## Changes in characters -/

namespace Change

theorem apply_range (text : String) (start stop : Position) (replacement : String) :
    (range start stop replacement).apply text =
      if ¬ start.ValidIn text.toList then
        .error (.invalidStart start)
      else if ¬ stop.ValidIn text.toList ∨
          stop.index text.toList < start.index text.toList then
        .error (.invalidEnd stop)
      else
        .ok (splice text (start.index text.toList) (stop.index text.toList) replacement) := by
  rw [apply]
  by_cases starts : start.ValidIn text.toList
  · rw [byteOffset?_of_validIn starts, if_neg (not_not_intro starts)]
    by_cases stops : stop.ValidIn text.toList
    · simp only [filter_byteOffset? starts.index_le stops, stops, not_true_eq_false, false_or]
      by_cases reversed : stop.index text.toList < start.index text.toList
      · simp only [reversed, if_true]
      · simp only [reversed, if_false, replaceBytes_take]
    · simp [byteOffset?_eq_none_iff.mpr stops, stops]
  · rw [byteOffset?_eq_none_iff.mpr starts, if_pos starts]

theorem apply_length (text : String) (start : Position) (count : Nat) (replacement : String) :
    (length start count replacement).apply text =
      if ¬ start.ValidIn text.toList then
        .error (.invalidStart start)
      else if text.length < start.index text.toList + count then
        .error (.outOfRange start count)
      else
        .ok (splice text (start.index text.toList) (start.index text.toList + count)
          replacement) := by
  rw [apply, ← String.length_toList]
  by_cases starts : start.ValidIn text.toList
  · rw [byteOffset?_of_validIn starts, if_neg (not_not_intro starts)]
    simp only [byteOffsetAfter?_take starts.index_le]
    by_cases beyond : text.toList.length < start.index text.toList + count
    · rw [if_pos beyond, if_neg (Nat.not_le_of_lt beyond)]
    · rw [if_neg beyond, if_pos (Nat.le_of_not_lt beyond)]
      simp only [replaceBytes_take]
  · rw [byteOffset?_eq_none_iff.mpr starts, if_pos starts]

/-- A length that reaches the end of a range replaces what the range does. -/
theorem apply_length_eq_range {start stop : Position} (starts : start.ValidIn text.toList)
    (stops : stop.ValidIn text.toList)
    (ordered : start.index text.toList ≤ stop.index text.toList) (replacement : String) :
    (length start (stop.index text.toList - start.index text.toList) replacement).apply text =
      (range start stop replacement).apply text := by
  have inside : ¬ text.length < stop.index text.toList := by
    rw [← String.length_toList]
    exact Nat.not_lt_of_le stops.index_le
  rw [apply_length, apply_range, Nat.add_sub_cancel' ordered]
  simp [starts, stops, Nat.not_lt_of_le ordered, inside]

theorem splice_behind (front removed back replacement : String) :
    splice (front ++ removed ++ back) front.length (front ++ removed).length replacement =
      front ++ replacement ++ back := by
  have inFront : (front ++ removed ++ back).toList.take front.length = front.toList := by
    rw [← String.length_toList, String.append_assoc, String.toList_append, List.take_left]
  have behind : (front ++ removed ++ back).toList.drop (front ++ removed).length =
      back.toList := by
    rw [String.toList_append, ← String.length_toList, List.drop_left]
  rw [splice, inFront, behind]
  simp [String.append_assoc]

theorem apply_range_behind (front removed back replacement : String) :
    (range (placeBehind front.toList) (placeBehind (front ++ removed).toList)
      replacement).apply (front ++ removed ++ back) = .ok (front ++ replacement ++ back) := by
  have begins : front.toList <+: (front ++ removed ++ back).toList := by simp
  have through : (front ++ removed).toList <+: (front ++ removed ++ back).toList := by simp
  have ordered : ¬ (front ++ removed).length < front.length := by simp
  rw [apply_range, index_placeBehind begins, index_placeBehind through, String.length_toList,
    String.length_toList, splice_behind, if_neg (not_not_intro (validIn_placeBehind begins)),
    if_neg (not_or_intro (not_not_intro (validIn_placeBehind through)) ordered)]

theorem apply_length_behind (front removed back replacement : String) :
    (length (placeBehind front.toList) removed.length replacement).apply
      (front ++ removed ++ back) = .ok (front ++ replacement ++ back) := by
  have begins : front.toList <+: (front ++ removed ++ back).toList := by simp
  have inside : ¬ (front ++ removed ++ back).length < (front ++ removed).length := by simp
  rw [apply_length, index_placeBehind begins, String.length_toList, ← String.length_append,
    splice_behind, if_neg (not_not_intro (validIn_placeBehind begins)), if_neg inside]

theorem ofEvent_range (start stop : Position) (rangeLength? : Option Nat) (replacement : String) :
    ofEvent ⟨some (start, stop), rangeLength?, replacement⟩ =
      if rangeLength?.getD 0 = 0 then range start stop replacement
      else length start (rangeLength?.getD 0) replacement := by
  match rangeLength? with
  | none => rfl
  | some 0 => rfl
  | some (count + 1) => rfl

end Change

/-! ## Changes in place -/

/-- Why a change that is made in place stops. -/
inductive Interruption where
  | refused (error : ChangeError)
  | offBoundary (offset : Nat)
  deriving DecidableEq, Repr

namespace InPlace

/-- Go on only if an offset is a boundary between characters of the text. -/
def requireBoundary (offset : Nat) : EStateM Interruption String Unit := do
  unless String.Pos.Raw.isValid (← get) ⟨offset⟩ do
    throw (.offBoundary offset)

/-- Replace what lies between two boundaries, of which the first is not behind the other. -/
def replaceRange (first last : Nat) (replacement : String) :
    EStateM Interruption String Unit := do
  requireBoundary first
  requireBoundary last
  if last < first then
    throw (.offBoundary last)
  modify fun text => replaceBytes text first last replacement

/-- A change of the text at hand; each offset is checked before it is used. -/
def perform : Change → EStateM Interruption String Unit
  | .full replacement => set replacement
  | .range start stop replacement => do
      match byteOffset? (← get) start with
      | none => throw (.refused (.invalidStart start))
      | some first =>
          match (byteOffset? (← get) stop).filter (first ≤ ·) with
          | none => throw (.refused (.invalidEnd stop))
          | some last => replaceRange first last replacement
  | .length start count replacement => do
      match byteOffset? (← get) start with
      | none => throw (.refused (.invalidStart start))
      | some first => do
          requireBoundary first
          match byteOffsetAfter? (← get) first count with
          | none => throw (.refused (.outOfRange start count))
          | some last => replaceRange first last replacement

theorem run_requireBoundary {offset : Nat} (boundary : String.Pos.Raw.IsValid text ⟨offset⟩) :
    (requireBoundary offset).run text = .ok () text := by
  simp [requireBoundary, boundary]

theorem run_replaceRange (front : String.Pos.Raw.IsValid text ⟨first⟩)
    (back : String.Pos.Raw.IsValid text ⟨last⟩) (ordered : first ≤ last)
    (replacement : String) :
    (replaceRange first last replacement).run text =
      .ok () (replaceBytes text first last replacement) := by
  simp [replaceRange, run_requireBoundary front, run_requireBoundary back,
    Nat.not_lt_of_le ordered]

theorem isValid_of_byteOffsetAfter? (front : String.Pos.Raw.IsValid text ⟨first⟩)
    (found : byteOffsetAfter? text first count = some last) :
    String.Pos.Raw.IsValid text ⟨last⟩ ∧ first ≤ last := by
  obtain ⟨before, within, rfl⟩ := Text.isValid_iff_exists_take.mp front
  rw [byteOffsetAfter?_take within] at found
  split at found
  · next inside =>
      cases found
      refine ⟨Text.isValid_iff_exists_take.mpr ⟨_, inside, rfl⟩, ?_⟩
      rw [List.take_add, Text.byteLength_append]
      exact Nat.le_add_right _ _
  · cases found

/-- In place a change does what it does to the text, and a refused one leaves the text. -/
theorem run_perform (text : String) (change : Change) :
    (perform change).run text =
      match change.apply text with
      | .ok next => .ok () next
      | .error error => .error (.refused error) text := by
  cases change with
  | full replacement => rfl
  | range start stop replacement =>
      simp only [perform, Change.apply, EStateM.run_bind, EStateM.run_get]
      cases front : byteOffset? text start with
      | none => rfl
      | some first =>
          simp only [EStateM.run_bind, EStateM.run_get]
          cases back : (byteOffset? text stop).filter (first ≤ ·) with
          | none => rfl
          | some last =>
              obtain ⟨found, ordered⟩ := Option.filter_eq_some_iff.mp back
              exact run_replaceRange (isValid_of_byteOffset? front) (isValid_of_byteOffset? found)
                (by simpa using ordered) replacement
  | length start count replacement =>
      simp only [perform, Change.apply, EStateM.run_bind, EStateM.run_get]
      cases front : byteOffset? text start with
      | none => rfl
      | some first =>
          have boundary := isValid_of_byteOffset? front
          simp only [EStateM.run_bind, EStateM.run_get, run_requireBoundary boundary]
          cases back : byteOffsetAfter? text first count with
          | none => rfl
          | some last =>
              obtain ⟨found, ordered⟩ := isValid_of_byteOffsetAfter? boundary back
              exact run_replaceRange boundary found ordered replacement

end InPlace

/-! ## Splices -/

namespace Document

/-- What changes make of a text. -/
structure Spliced (text : String) : Prop where
  /-- The whole text may be replaced. -/
  full : ∀ replacement, (Change.full replacement).apply text = .ok replacement
  /-- A range is refused for its start, then for its end, or else replaced. -/
  range : ∀ start stop replacement, (Change.range start stop replacement).apply text =
    if ¬ start.ValidIn text.toList then
      .error (.invalidStart start)
    else if ¬ stop.ValidIn text.toList ∨
        stop.index text.toList < start.index text.toList then
      .error (.invalidEnd stop)
    else
      .ok (splice text (start.index text.toList) (stop.index text.toList) replacement)
  /-- So many characters are refused for their start, then as too many, or else replaced. -/
  length : ∀ start count replacement, (Change.length start count replacement).apply text =
    if ¬ start.ValidIn text.toList then
      .error (.invalidStart start)
    else if text.length < start.index text.toList + count then
      .error (.outOfRange start count)
    else
      .ok (splice text (start.index text.toList) (start.index text.toList + count) replacement)
  /-- In place the text is the same after a refusal, and no offset is off a boundary. -/
  inPlace : ∀ change, (InPlace.perform change).run text =
    match change.apply text with
    | .ok next => .ok () next
    | .error error => .error (.refused error) text
  /-- A range may be given by its length, and in an event by either or both. -/
  agree : ∀ start stop replacement, start.ValidIn text.toList → stop.ValidIn text.toList →
    ¬ stop < start →
      let count := stop.index text.toList - start.index text.toList
      (Change.length start count replacement).apply text =
          (Change.range start stop replacement).apply text ∧
        ∀ rangeLength? ∈ [none, some 0, some count],
          (Change.ofEvent ⟨some (start, stop), rangeLength?, replacement⟩).apply text =
            (Change.range start stop replacement).apply text

/-- Every change of every text is a splice. -/
theorem spliced (text : String) : Spliced text where
  full _ := rfl
  range := Change.apply_range text
  length := Change.apply_length text
  inPlace := InPlace.run_perform text
  agree := by
    intro start stop replacement starts stops notBefore count
    rw [stops.lt_iff starts] at notBefore
    have same := Change.apply_length_eq_range starts stops (Nat.le_of_not_lt notBefore) replacement
    refine ⟨same, ?_⟩
    intro rangeLength? stated
    rw [Change.ofEvent_range]
    simp only [List.mem_cons, List.not_mem_nil, or_false] at stated
    rcases stated with rfl | rfl | rfl
    · rfl
    · rfl
    · rw [Option.getD_some]
      split
      · rfl
      · exact same

end Document

end ContractLens
