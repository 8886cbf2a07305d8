import ContractLens.Token.Gap
import Mathlib.Data.List.TakeWhile

/-!
# Gaps as written

A gap is written as blanks and comments, where a comment runs up to the next line
feed or to the end of the text.  The gap that is passed in front of a lexeme is the
longest one that is written there.
-/

namespace ContractLens

/-- In front of the text behind it, `gap` is made of blanks and of whole comments. -/
inductive IsGap (behind : List Char) : List Char → Prop
  | none : IsGap behind []
  | blank {c : Char} {rest : List Char} : Gap.isBlank c = true → IsGap behind rest →
      IsGap behind (c :: rest)
  | comment {body rest : List Char} : '\n' ∉ body →
      (∀ c, (rest ++ behind).head? = some c → c = '\n') → IsGap behind rest →
      IsGap behind ('/' :: '/' :: body ++ rest)

namespace Gap

/-! ## How long a gap is -/

/-- No gap begins with a character that is no blank, and no slash in front of another one. -/
theorem extend?_eq_none {c : Char} {next : Option Char} :
    extend? false c next = none ↔ isBlank c = false ∧ (c = '/' → next ≠ some '/') := by
  by_cases blank : isBlank c = true
  · simp [extend?, blank]
  · simp [extend?, blank]

theorem length_eq_zero {c : Char} {following : List Char} :
    length false (c :: following) = 0 ↔ extend? false c following.head? = none := by
  rw [length]
  cases extend? false c following.head? <;> simp

theorem length_blank {c : Char} (blank : isBlank c = true) (cs : List Char) :
    length false (c :: cs) = length false cs + 1 := by
  simp [length, extend?, blank]

/-- An open comment goes up to a line feed or to the end, and the gap goes on from there. -/
theorem length_open {body behind : List Char} (noFeed : '\n' ∉ body)
    (stops : ∀ c, behind.head? = some c → c = '\n') :
    length true (body ++ behind) = body.length + length false behind := by
  induction body with
  | nil =>
      cases behind with
      | nil => rfl
      | cons c behind =>
          rw [stops c rfl, length_blank rfl, List.nil_append, length]
          simp [extend?]
  | cons c body ih =>
      obtain ⟨other, noFeed⟩ := not_or.mp (mt List.mem_cons.mpr noFeed)
      have goesOn : (c != '\n') = true := by simpa using Ne.symm other
      rw [List.cons_append, length]
      simp only [extend?, if_true, goesOn, ih noFeed, List.length_cons]
      omega

theorem length_comment {body behind : List Char} (noFeed : '\n' ∉ body)
    (stops : ∀ c, behind.head? = some c → c = '\n') :
    length false ('/' :: '/' :: body ++ behind) = body.length + length false behind + 2 := by
  rw [← length_open noFeed stops]
  rfl

/-! ## What is passed -/

theorem exists_comment (cs : List Char) :
    ∃ body behind, cs = body ++ behind ∧ '\n' ∉ body ∧
      ∀ c, behind.head? = some c → c = '\n' := by
  refine ⟨cs.takeWhile (· != '\n'), cs.dropWhile (· != '\n'),
    List.takeWhile_append_dropWhile.symm, fun member => ?_, fun c found => ?_⟩
  · simpa using List.mem_takeWhile_imp member
  · have stops := List.head?_dropWhile_not (· != '\n') cs
    simpa [found] using stops

/-- Every text begins with a gap that does not go on behind it. -/
theorem exists_gap (cs : List Char) :
    ∃ gap behind, cs = gap ++ behind ∧ IsGap behind gap ∧ length false behind = 0 := by
  cases cs with
  | nil => exact ⟨[], [], rfl, .none, rfl⟩
  | cons c following =>
      by_cases blank : isBlank c = true
      · obtain ⟨gap, behind, rfl, isGap, ends⟩ := exists_gap following
        exact ⟨c :: gap, behind, rfl, .blank blank isGap, ends⟩
      by_cases slashes : c = '/' ∧ following.head? = some '/'
      · obtain ⟨rfl, head⟩ := slashes
        obtain ⟨cs, rfl⟩ := List.head?_eq_some_iff.mp head
        obtain ⟨body, rest, rfl, noFeed, stops⟩ := exists_comment cs
        obtain ⟨gap, behind, rfl, isGap, ends⟩ := exists_gap rest
        refine ⟨'/' :: '/' :: body ++ gap, behind, ?_, .comment noFeed stops isGap, ends⟩
        simp
      · refine ⟨[], c :: following, rfl, .none, length_eq_zero.mpr (extend?_eq_none.mpr ?_)⟩
        exact ⟨Bool.not_eq_true _ ▸ blank, fun slash next => slashes ⟨slash, next⟩⟩
termination_by cs.length

/-- A gap is passed whole, up to where no gap begins. -/
theorem length_of_isGap {gap behind : List Char} (isGap : IsGap behind gap)
    (ends : length false behind = 0) : length false (gap ++ behind) = gap.length := by
  induction isGap with
  | none => exact ends
  | blank isBlank _ ih => rw [List.cons_append, length_blank isBlank, ih, List.length_cons]
  | @comment body rest noFeed stops _ ih =>
      rw [List.append_assoc, length_comment noFeed stops, ih]
      simp only [List.cons_append, List.length_cons, List.length_append]

theorem take_length_and_skip {gap behind : List Char} (isGap : IsGap behind gap)
    (ends : length false behind = 0) :
    (gap ++ behind).take (length false (gap ++ behind)) = gap ∧ skip (gap ++ behind) = behind := by
  rw [skip, length_of_isGap isGap ends]
  exact ⟨List.take_left, List.drop_left⟩

theorem extend?_of_skip {cs following : List Char} {c : Char}
    (skipped : skip cs = c :: following) : extend? false c following.head? = none := by
  obtain ⟨gap, behind, rfl, isGap, ends⟩ := exists_gap cs
  rw [(take_length_and_skip isGap ends).2] at skipped
  rw [skipped] at ends
  exact length_eq_zero.mp ends

end Gap

end ContractLens
