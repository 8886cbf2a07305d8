import ContractLens.Proofs.Token.Gap
import ContractLens.Proofs.Token.Pattern

/-!
# Spaced texts

A lexeme that is followed by a blank is read as far as it goes and no further, and so is
one at the end of a text.  Blanks and closed comments are passed whole, whatever stands
behind them.  So symbols written with blanks between them are read back, whatever their
order.
-/

namespace ContractLens

/-! ## Legible symbols -/

/-- With a blank behind it, the symbol is read, however the text goes on. -/
def Symbol.Legible (symbol : Symbol) : Prop :=
  ∀ offset behind, Lexeme.next? offset (symbol.literal.toList ++ ' ' :: behind) =
    some (⟨offset, symbol.kind, symbol.literal⟩, ' ' :: behind)

namespace Lexeme

theorem length_takeWhile_take {holds : Char → Bool} {behind : List Char}
    (stops : ∀ stop ∈ behind.head?, holds stop = false) (following : List Char) :
    ((following.take (following.takeWhile holds).length ++ behind).takeWhile holds).length =
      (following.takeWhile holds).length := by
  have each : ∀ c ∈ following.takeWhile holds, holds c = true := fun c => List.mem_takeWhile_imp
  rw [take_length_takeWhile]
  cases behind with
  | nil => rw [List.append_nil, List.takeWhile_eq_self_iff.mpr each]
  | cons stop behind => rw [takeWhile_eq_of_stop each (stops stop rfl)]

theorem quotedLength_take {following behind : List Char}
    (closed : behind ≠ [] → quotedLength following < following.length) :
    quotedLength (following.take (quotedLength following) ++ behind) = quotedLength following := by
  rcases take_quotedLength following with ⟨whole, noQuote⟩ | ⟨taken, closes⟩
  · have nothing : behind = [] := by
      by_contra goesOn
      exact Nat.ne_of_lt (closed goesOn) (quotedLength_of_not_mem noQuote).1
    rw [whole, nothing, List.append_nil]
  have content : (following.takeWhile (· != '"') ++ '"' :: behind).takeWhile (· != '"') =
      following.takeWhile (· != '"') :=
    takeWhile_eq_of_stop (fun c => List.mem_takeWhile_imp) rfl
  rw [taken, closes, List.append_assoc, quotedLength]
  simp only [List.cons_append, List.nil_append, content, List.length_append, List.length_cons]
  omega

/--
A lexeme takes as much of the text if the text ends behind it, and in front of a blank unless
it went on to the end of the text.
-/
theorem extent_take {c : Char} {following behind : List Char}
    (blank : ∀ stop ∈ behind.head?, Gap.isBlank stop = true)
    (goesOn : behind ≠ [] → (extent c following).2 < following.length) :
    extent c (following.take (extent c following).2 ++ behind) = extent c following := by
  have stops : ∀ stop ∈ behind.head?, isNameStart stop = false ∧ stop.isDigit = false ∧
      stop ≠ '*' ∧ stop ≠ '=' := by
    intro stop isStop
    obtain ⟨noName, noDigit, _, noStar, noEquals, _⟩ := begins_no_lexeme (.inl (blank stop isStop))
    exact ⟨noName, noDigit, noStar, noEquals⟩
  unfold extent at goesOn ⊢
  split
  · rw [length_takeWhile_take fun stop isStop => by
      simp [isNamePart, (stops stop isStop).1, (stops stop isStop).2.1]]
  split
  · rw [length_takeWhile_take fun stop isStop => (stops stop isStop).2.1]
  split
  · next noName noDigit quote =>
      simp only [noName, noDigit, quote, if_true] at goesOn
      rw [quotedLength_take goesOn]
  split
  · next twice =>
      simp only [Bool.and_eq_true, beq_iff_eq, List.head?_eq_some_iff] at twice
      obtain ⟨rfl, rest, rfl⟩ := twice
      rfl
  split
  · next twice =>
      simp only [Bool.and_eq_true, beq_iff_eq, List.head?_eq_some_iff] at twice
      obtain ⟨rfl, rest, rfl⟩ := twice
      simp
  · have noStar : behind.head? ≠ some '*' := fun head => (stops '*' head).2.2.1 rfl
    have noEquals : behind.head? ≠ some '=' := fun head => (stops '=' head).2.2.2 rfl
    simp [noStar, noEquals]

theorem snd_extent_le (c : Char) (following : List Char) :
    (extent c following).2 ≤ following.length := by
  have twice : ∀ {d : Char}, (c == d && following.head? == some d) = true →
      1 ≤ following.length := by
    intro d both
    simp only [Bool.and_eq_true, beq_iff_eq, List.head?_eq_some_iff] at both
    obtain ⟨_, rest, rfl⟩ := both
    exact Nat.le_add_left 1 _
  unfold extent
  split
  · exact (List.takeWhile_prefix _).length_le
  split
  · exact (List.takeWhile_prefix _).length_le
  split
  · exact Nat.min_le_left _ _
  split
  · next power => exact twice power
  split
  · next equal => exact twice equal
  · exact Nat.zero_le _

/-- A lexeme is read as it was at the end of a text, and in front of a blank if text followed it. -/
theorem next?_of_next? {offset : Nat} {cs rest behind : List Char} {lexeme : Lexeme}
    (read : next? offset cs = some (lexeme, rest))
    (blank : ∀ stop ∈ behind.head?, Gap.isBlank stop = true) (goesOn : behind ≠ [] → rest ≠ [])
    (place : Nat) :
    next? place (lexeme.literal.toList ++ behind) =
      some (⟨place, lexeme.kind, lexeme.literal⟩, behind) := by
  obtain ⟨c, following, skipped, rfl, rfl⟩ := exists_of_next? read
  have within := snd_extent_le c following
  have again : extent c (following.take (extent c following).2 ++ behind) = extent c following := by
    refine extent_take blank fun more => ?_
    have positive := List.length_pos_iff.mpr (goesOn more)
    rw [List.length_drop] at positive
    omega
  have length : (following.take (extent c following).2).length = (extent c following).2 := by
    rw [List.length_take, Nat.min_eq_left within]
  obtain ⟨noBlank, noComment⟩ := Gap.extend?_eq_none.mp (Gap.extend?_of_skip skipped)
  generalize extent c following = found at again length within ⊢
  obtain ⟨kind, more⟩ := found
  have noGap : Gap.extend? false c (following.take more ++ behind).head? = none := by
    refine Gap.extend?_eq_none.mpr ⟨noBlank, fun slash next => ?_⟩
    cases more with
    | zero => cases blank '/' (by simpa using next)
    | succ more =>
        obtain ⟨d, following, rfl⟩ := List.exists_cons_of_length_pos (Nat.zero_lt_of_lt within)
        exact noComment slash next
  have noLength := Gap.length_eq_zero.mpr noGap
  simp only [String.toList_ofList, List.cons_append, next?, Gap.skip, noLength, List.drop_zero,
    again, Nat.add_zero]
  rw [List.take_left' length, List.drop_left' length]

theorem legible_of_next? {offset : Nat} {cs rest : List Char} {lexeme : Lexeme}
    (read : next? offset cs = some (lexeme, rest)) (goesOn : rest ≠ []) :
    lexeme.symbol.Legible :=
  fun place _ => next?_of_next? read (by simp [Gap.isBlank]) (fun _ => goesOn) place

end Lexeme

theorem legible_of_lexemesFrom {offset : Nat} {cs : List Char} {taken rest : List Lexeme}
    (whole : lexemesFrom offset cs = taken ++ rest) (goesOn : rest ≠ []) :
    ∀ lexeme ∈ taken, lexeme.symbol.Legible := by
  induction offset, cs using lexemesFrom.induct generalizing taken with
  | case1 offset cs none =>
      rw [lexemesFrom_of_none none] at whole
      simp [(List.append_eq_nil_iff.mp whole.symm).2] at goesOn
  | case2 offset cs first behind read ih =>
      rw [lexemesFrom_of_some read] at whole
      cases taken with
      | nil => simp
      | cons lexeme taken =>
          obtain ⟨rfl, remaining⟩ := List.cons.inj whole
          have notEmpty : behind ≠ [] := by
            rintro rfl
            rw [lexemesFrom_nil] at remaining
            exact goesOn (List.append_eq_nil_iff.mp remaining.symm).2
          intro lexeme member
          rcases List.mem_cons.mp member with rfl | inside
          · exact Lexeme.legible_of_next? read notEmpty
          · exact ih remaining lexeme inside

/-! ## Closed gaps -/

/-- Blanks, and comments with the line feeds that close them. -/
inductive ClosedGap : List Char → Prop where
  | none : ClosedGap []
  | blank {c : Char} {rest : List Char} :
      Gap.isBlank c = true → ClosedGap rest → ClosedGap (c :: rest)
  | comment {body rest : List Char} :
      '\n' ∉ body → ClosedGap rest → ClosedGap ('/' :: '/' :: body ++ '\n' :: rest)

theorem ClosedGap.length_append {gap : List Char} (closed : ClosedGap gap) (cs : List Char) :
    Gap.length false (gap ++ cs) = gap.length + Gap.length false cs := by
  induction closed with
  | none => simp
  | blank isBlank _ ih =>
      rw [List.cons_append, Gap.length_blank isBlank, ih, List.length_cons]
      omega
  | @comment body rest noFeed _ ih =>
      have stops : ∀ c, ('\n' :: rest ++ cs).head? = some c → c = '\n' := by simp [eq_comm]
      rw [List.append_assoc, Gap.length_comment noFeed stops, List.cons_append,
        Gap.length_blank rfl, ih]
      simp only [List.cons_append, List.length_append, List.length_cons]
      omega

/-- A closed gap in front of a text moves its lexemes and changes nothing else. -/
theorem ClosedGap.lexemesFrom_append {gap : List Char} (closed : ClosedGap gap) (offset : Nat)
    (cs : List Char) : lexemesFrom offset (gap ++ cs) = lexemesFrom (offset + gap.length) cs := by
  have same : Lexeme.next? offset (gap ++ cs) = Lexeme.next? (offset + gap.length) cs := by
    simp only [Lexeme.next?, Gap.skip, closed.length_append, List.drop_length_add_append,
      Nat.add_assoc]
  cases read : Lexeme.next? (offset + gap.length) cs with
  | none => rw [lexemesFrom_of_none read, lexemesFrom_of_none (same.trans read)]
  | some found =>
      obtain ⟨lexeme, rest⟩ := found
      rw [lexemesFrom_of_some read, lexemesFrom_of_some (same.trans read)]

/-! ## Spaced symbols -/

/-- The symbols with a blank behind each of them. -/
def spaced (symbols : List Symbol) : List Char :=
  symbols.flatMap fun symbol => symbol.literal.toList ++ [' ']

/-- Symbols that are legible are read back from the spaced text. -/
theorem symbols_spaced {symbols : List Symbol} (legible : ∀ symbol ∈ symbols, symbol.Legible)
    (offset : Nat) : (lexemesFrom offset (spaced symbols)).map Lexeme.symbol = symbols := by
  induction symbols generalizing offset with
  | nil =>
      rw [spaced, List.flatMap_nil, lexemesFrom_nil]
      rfl
  | cons symbol symbols ih =>
      have text : spaced (symbol :: symbols) =
          symbol.literal.toList ++ ' ' :: spaced symbols := by simp [spaced]
      have read := legible symbol (by simp) offset (spaced symbols)
      have blank : ClosedGap [' '] := .blank rfl .none
      have behind := blank.lexemesFrom_append (offset + symbol.literal.length) (spaced symbols)
      rw [List.singleton_append] at behind
      rw [text, lexemesFrom_of_some read, List.map_cons, Lexeme.endPos, behind,
        ih fun other member => legible other (by simp [member])]
      rfl

end ContractLens
