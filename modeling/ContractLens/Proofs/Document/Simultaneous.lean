import ContractLens.Proofs.Document.Batch
import Mathlib.Data.List.Chain

/-!
# Edits made at once

An editor that makes several edits at once gives all their positions in the text that it
had before.  Such edits can be sent as one batch if the last one in the text is sent first:
an edit leaves what stands in front of it, and with it the positions of the edits that are
still to come.  What comes out is the text with every edit made where it stands.
-/

namespace ContractLens

/-- A replacement of the text between two positions. -/
structure Edit where
  start : Position
  stop : Position
  replacement : String
  deriving DecidableEq, Repr

namespace Edit

def change (edit : Edit) : Change :=
  .range edit.start edit.stop edit.replacement

/-- The edit has valid ends in the text, in this order. -/
structure FitsIn (edit : Edit) (cs : List Char) : Prop where
  start : edit.start.ValidIn cs
  stop : edit.stop.ValidIn cs
  ordered : edit.start ≤ edit.stop

instance (edit : Edit) (cs : List Char) : Decidable (edit.FitsIn cs) :=
  decidable_of_iff (edit.start.ValidIn cs ∧ edit.stop.ValidIn cs ∧ edit.start ≤ edit.stop)
    ⟨fun ⟨start, stop, ordered⟩ => ⟨start, stop, ordered⟩,
      fun ⟨start, stop, ordered⟩ => ⟨start, stop, ordered⟩⟩

/-- The characters from an index on, with edits made behind it, each where it stands. -/
def replaceFrom (cs : List Char) (first : Nat) : List Edit → List Char
  | [] => cs.drop first
  | edit :: edits =>
      Text.between cs first (edit.start.index cs) ++ edit.replacement.toList ++
        replaceFrom cs (edit.stop.index cs) edits

/-- The text with every edit made where it stands. -/
def replaceAll (text : String) (edits : List Edit) : String :=
  String.ofList (replaceFrom text.toList 0 edits)

/-! ## One edit and what stands behind it -/

variable {cs : List Char} {text : String} {edit : Edit} {edits : List Edit}

theorem FitsIn.index_le (fits : edit.FitsIn cs) :
    edit.start.index cs ≤ edit.stop.index cs :=
  (fits.start.le_iff fits.stop).mp fits.ordered

/-- An edit is made where it stands in the text, even if the text has changed behind it. -/
theorem FitsIn.apply_change (fits : edit.FitsIn cs) (rest : List Char) :
    edit.change.apply (String.ofList (cs.take (edit.stop.index cs) ++ rest)) =
      .ok (String.ofList
        (cs.take (edit.start.index cs) ++ edit.replacement.toList ++ rest)) := by
  have start : placeBehind (cs.take (edit.start.index cs)) = edit.start :=
    fits.start.placeAt_index
  have stop : placeBehind (cs.take (edit.stop.index cs)) = edit.stop :=
    fits.stop.placeAt_index
  have done := Change.apply_range_behind (.ofList (cs.take (edit.start.index cs)))
    (.ofList (Text.between cs (edit.start.index cs) (edit.stop.index cs))) (.ofList rest)
    edit.replacement
  simp only [← String.ofList_append, String.toList_ofList,
    Text.take_append_between cs fits.index_le, start, stop] at done
  rw [change, done, String.ofList_append, String.ofList_append, String.ofList_toList]

/-! ## Edits one behind the other -/

/-- Edits made from the last to the first leave the text up to the first one as it was. -/
theorem foldlM_reverse (first : Nat) (fits : ∀ edit ∈ edits, edit.FitsIn text.toList)
    (apart : edits.IsChain fun former latter => former.stop ≤ latter.start)
    (behind : ∀ edit ∈ edits.head?, first ≤ edit.start.index text.toList) :
    (edits.reverse.map change).foldlM Change.apply text =
      .ok (String.ofList (text.toList.take first ++ replaceFrom text.toList first edits)) := by
  -- Behind the first edit all others have been made, so the induction takes edits from the front.
  induction edits generalizing first with
  | nil =>
      rw [replaceFrom, List.take_append_drop, String.ofList_toList]
      rfl
  | cons edit edits ih =>
      obtain ⟨fitsHere, fitsBehind⟩ := List.forall_mem_cons.mp fits
      obtain ⟨apartHere, apartBehind⟩ := List.isChain_cons.mp apart
      have others := ih _ fitsBehind apartBehind fun next isNext =>
        (fitsHere.stop.le_iff (fitsBehind next (List.mem_of_mem_head? isNext)).start).mp
          (apartHere next isNext)
      have inFront : first ≤ edit.start.index text.toList := behind edit rfl
      have front := Text.take_append_between text.toList inFront
      rw [List.reverse_cons, List.map_append, Change.foldlM_append_of_ok others,
        List.map_singleton, Change.foldlM_cons_of_ok (fitsHere.apply_change _), replaceFrom,
        ← List.append_assoc, ← List.append_assoc, front]
      rfl

/--
Edits that stand one behind the other in a text, and may touch, are made at once by the
batch that makes the last of them first.
-/
theorem applyAll_reverse (fits : ∀ edit ∈ edits, edit.FitsIn text.toList)
    (apart : edits.IsChain fun former latter => former.stop ≤ latter.start) :
    Change.applyAll text (edits.reverse.map change) = .ok (replaceAll text edits) ∧
      ∀ (store : OpenDocuments) (uri : String), store.get? uri = some text →
        ∃ next, store.applyChanges uri (edits.reverse.map change) = .ok next ∧
          next.get? uri = some (replaceAll text edits) := by
  have done := foldlM_reverse 0 fits apart fun _ _ => Nat.zero_le _
  rw [List.take_zero, List.nil_append] at done
  refine ⟨(Change.applyAll_eq_foldlM text _).trans done, ?_⟩
  intro store uri opened
  exact ⟨_, store.applyChanges_of_ok opened done, store.get?_insert_self uri _⟩

/-- Edits that touch each other, one of which joins lines while another one adds lines. -/
theorem applyAll_reverse_touching :
    Change.applyAll "ab\ncd\né" [.range ⟨1, 1⟩ ⟨2, 1⟩ "", .range ⟨1, 0⟩ ⟨1, 0⟩ "é",
      .range ⟨0, 1⟩ ⟨1, 0⟩ "\n\nx"] = .ok "a\n\nxéc" := by
  have fits : ∀ edit ∈ [Edit.mk ⟨0, 1⟩ ⟨1, 0⟩ "\n\nx", ⟨⟨1, 0⟩, ⟨1, 0⟩, "é"⟩,
      ⟨⟨1, 1⟩, ⟨2, 1⟩, ""⟩], edit.FitsIn "ab\ncd\né".toList := by
    decide +kernel
  have apart : [Edit.mk ⟨0, 1⟩ ⟨1, 0⟩ "\n\nx", ⟨⟨1, 0⟩, ⟨1, 0⟩, "é"⟩,
      ⟨⟨1, 1⟩, ⟨2, 1⟩, ""⟩].IsChain fun former latter => former.stop ≤ latter.start := by
    decide +kernel
  have result : replaceAll "ab\ncd\né" [⟨⟨0, 1⟩, ⟨1, 0⟩, "\n\nx"⟩, ⟨⟨1, 0⟩, ⟨1, 0⟩, "é"⟩,
      ⟨⟨1, 1⟩, ⟨2, 1⟩, ""⟩] = "a\n\nxéc" := by
    decide +kernel
  rw [← result]
  exact (applyAll_reverse fits apart).1

end Edit

end ContractLens
