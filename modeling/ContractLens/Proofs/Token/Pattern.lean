import ContractLens.Proofs.Token.Symbol
import Mathlib.Data.List.TakeWhile

/-!
# Patterns

Every kind of lexeme has a pattern, and so has every part of a gap.  The characters
that a lexeme takes match the pattern of its kind, and no pattern matches more of the
text.
-/

namespace ContractLens

/-! ## What matches -/

/-- The characters have the form of the kind; a mark has its wording as its only form. -/
def Kind.Matches : Kind → List Char → Prop
  | identifier, cs => ∃ first more, cs = first :: more ∧ Lexeme.isNameStart first = true ∧
      ∀ c ∈ more, Lexeme.isNamePart c = true
  | integer, cs => cs ≠ [] ∧ ∀ c ∈ cs, c.isDigit = true
  | string, cs => ∃ body, '"' ∉ body ∧ (cs = '"' :: body ∨ cs = '"' :: (body ++ ['"']))
  | illegal, cs => ∃ c, cs = [c]
  | mark, cs => cs = mark.display.toList

/-- The characters are a run of blanks, or a comment without the line feed behind it. -/
def Gap.Matches (cs : List Char) : Prop :=
  (cs ≠ [] ∧ ∀ c ∈ cs, isBlank c = true) ∨ ∃ body, cs = '/' :: '/' :: body ∧ '\n' ∉ body

/-- The characters match a pattern; an illegal character is what matches none. -/
def Matchable (cs : List Char) : Prop :=
  (∃ kind, kind ≠ .illegal ∧ Kind.Matches kind cs) ∨ Gap.Matches cs

theorem Kind.matches_mark {kind : Kind} (isMark : kind.isMark = true) {cs : List Char} :
    kind.Matches cs ↔ cs = kind.display.toList := by
  cases kind with
  | identifier | integer | string | illegal => cases isMark
  | _ => exact Iff.rfl

theorem Kind.Matches.ne_nil {kind : Kind} {cs : List Char} (matched : kind.Matches cs) :
    cs ≠ [] := by
  rintro rfl
  cases kind with
  | identifier =>
      obtain ⟨_, _, whole, _⟩ := matched
      cases whole
  | integer => exact matched.1 rfl
  | string =>
      obtain ⟨_, _, whole | whole⟩ := matched
      all_goals cases whole
  | illegal =>
      obtain ⟨_, whole⟩ := matched
      cases whole
  | _ => cases matched

/-! ## How far a lexeme goes -/

theorem takeWhile_eq_of_stop {holds : Char → Bool} {front behind : List Char} {stop : Char}
    (each : ∀ c ∈ front, holds c = true) (stops : holds stop = false) :
    (front ++ stop :: behind).takeWhile holds = front := by
  rw [List.takeWhile_append_of_pos each, List.takeWhile_cons_of_neg (by simp [stops]),
    List.append_nil]

theorem take_length_takeWhile (holds : Char → Bool) (cs : List Char) :
    cs.take (cs.takeWhile holds).length = cs.takeWhile holds :=
  (List.prefix_iff_eq_take.mp (List.takeWhile_prefix holds)).symm

namespace Lexeme

theorem isNameStart_of_isDigit {c : Char} (digit : c.isDigit = true) :
    isNameStart c = false := by
  have digits : ∀ code < 58, 48 ≤ code → isNameStart (Char.ofNat code) = false := by
    decide +kernel
  simp only [Char.isDigit, Bool.and_eq_true, decide_eq_true_eq, ge_iff_le,
    UInt32.le_iff_toNat_le] at digit
  change 48 ≤ c.toNat ∧ c.toNat ≤ 57 at digit
  rw [← Char.ofNat_toNat c]
  exact digits c.toNat (Nat.lt_succ_of_le digit.2) digit.1

/-- Neither a name, nor a number, a string or a mark begins like a gap. -/
theorem begins_no_lexeme {c : Char} (begins : Gap.isBlank c = true ∨ c = '/') :
    isNameStart c = false ∧ c.isDigit = false ∧ c ≠ '"' ∧ c ≠ '*' ∧ c ≠ '=' ∧ mark? c = none := by
  simp only [Gap.isBlank, Bool.or_eq_true, beq_iff_eq] at begins
  rcases begins with (((rfl | rfl) | rfl) | rfl) | rfl
  all_goals decide +kernel

theorem quotedLength_of_not_mem {body : List Char} (noQuote : '"' ∉ body) :
    quotedLength body = body.length ∧ quotedLength (body ++ ['"']) = body.length + 1 := by
  have each : ∀ c ∈ body, (c != '"') = true := fun c member => by
    simpa using fun same : c = '"' => noQuote (same ▸ member)
  have content : body.takeWhile (· != '"') = body := List.takeWhile_eq_self_iff.mpr each
  have closed : (body ++ ['"']).takeWhile (· != '"') = body := takeWhile_eq_of_stop each rfl
  constructor
  · rw [quotedLength, content]
    omega
  · rw [quotedLength, closed, List.length_append, List.length_singleton, Nat.min_self]

theorem extent_quote (following : List Char) :
    extent '"' following = (.string, quotedLength following) := by
  have noName : isNameStart '"' = false := by decide +kernel
  have noDigit : '"'.isDigit = false := by decide
  simp [extent, noName, noDigit]

/-- Characters that match the pattern of a kind are one lexeme of this kind. -/
theorem extent_eq_of_matches {kind : Kind} {c : Char} {more : List Char}
    (known : kind ≠ .illegal) (matched : kind.Matches (c :: more)) :
    extent c more = (kind, more.length) := by
  cases kind with
  | identifier =>
      obtain ⟨_, _, whole, start, each⟩ := matched
      cases whole
      rw [extent, if_pos start, List.takeWhile_eq_self_iff.mpr each]
  | integer =>
      have digit := matched.2 c List.mem_cons_self
      have each : ∀ d ∈ more, d.isDigit = true := fun d member =>
        matched.2 d (List.mem_cons_of_mem c member)
      rw [extent, isNameStart_of_isDigit digit, if_neg Bool.false_ne_true, if_pos digit,
        List.takeWhile_eq_self_iff.mpr each]
  | string =>
      obtain ⟨body, noQuote, whole⟩ := matched
      obtain ⟨unclosed, closed⟩ := quotedLength_of_not_mem noQuote
      rcases whole with whole | whole
      · cases whole
        rw [extent_quote, unclosed]
      · cases whole
        rw [extent_quote, closed, List.length_append, List.length_singleton]
  | illegal => exact absurd rfl known
  | _ =>
      cases matched
      decide +kernel

/-- A string is its content and the closing quote, or all that is left if there is none. -/
theorem take_quotedLength (following : List Char) :
    (following.take (quotedLength following) = following ∧ '"' ∉ following) ∨
      (following.take (quotedLength following) = following.takeWhile (· != '"') ++ ['"'] ∧
        quotedLength following = (following.takeWhile (· != '"')).length + 1) := by
  have whole : following.takeWhile (· != '"') ++ following.dropWhile (· != '"') = following :=
    List.takeWhile_append_dropWhile
  cases behind : following.dropWhile (· != '"') with
  | nil =>
      have noQuote : '"' ∉ following := fun member => by
        simpa using List.dropWhile_eq_nil_iff.mp behind '"' member
      refine .inl ⟨?_, noQuote⟩
      rw [(quotedLength_of_not_mem noQuote).1, List.take_length]
  | cons quote rest =>
      have isQuote : quote = '"' := by
        have stops := List.head?_dropWhile_not (· != '"') following
        simpa [behind] using stops
      rw [behind, isQuote] at whole
      have total := congrArg List.length whole
      rw [List.length_append, List.length_cons] at total
      have closes : quotedLength following = (following.takeWhile (· != '"')).length + 1 := by
        rw [quotedLength]
        omega
      have front := congrArg (List.take ((following.takeWhile (· != '"')).length + 1)) whole.symm
      refine .inr ⟨?_, closes⟩
      rw [closes, front, List.take_length_add_append]
      rfl

theorem isMark_of_mark? {c : Char} {kind : Kind} (found : mark? c = some kind) :
    kind.isMark = true := by
  unfold mark? at found
  split at found
  all_goals cases found
  all_goals rfl

/-- The characters of a lexeme match the pattern of its kind. -/
theorem matches_of_extent {c : Char} {following : List Char} {kind : Kind} {more : Nat}
    (taken : extent c following = (kind, more)) : kind.Matches (c :: following.take more) := by
  -- A mark is known by its text; the other kinds are read off the branches.
  by_cases isMark : kind.isMark = true
  · rw [Kind.matches_mark isMark, ← ofList_of_extent taken isMark, String.toList_ofList]
  unfold extent at taken
  split at taken
  · next start =>
      cases taken
      rw [take_length_takeWhile]
      exact ⟨c, _, rfl, start, fun d => List.mem_takeWhile_imp⟩
  split at taken
  · next digit =>
      cases taken
      rw [take_length_takeWhile]
      refine ⟨List.cons_ne_nil c _, fun d member => ?_⟩
      rcases List.mem_cons.mp member with rfl | member
      · exact digit
      · exact List.mem_takeWhile_imp member
  split at taken
  · next quote =>
      cases taken
      rw [beq_iff_eq] at quote
      subst quote
      rcases take_quotedLength following with ⟨unclosed, noQuote⟩ | ⟨closed, _⟩
      · exact ⟨following, noQuote, .inl (by rw [unclosed])⟩
      · refine ⟨_, fun member => ?_, .inr (congrArg _ closed)⟩
        simpa using List.mem_takeWhile_imp member
  split at taken
  · cases taken
    exact absurd rfl isMark
  split at taken
  · cases taken
    exact absurd rfl isMark
  · cases found : mark? c with
    | none =>
        rw [found] at taken
        cases taken
        exact ⟨c, rfl⟩
    | some mark =>
        rw [found] at taken
        cases taken
        exact absurd (isMark_of_mark? found) isMark

theorem length_takeWhile_le {holds : Char → Bool} {front whole : List Char}
    (first : front <+: whole) :
    (front.takeWhile holds).length ≤ (whole.takeWhile holds).length := by
  obtain ⟨behind, rfl⟩ := first
  rw [List.takeWhile_append]
  split
  · rw [List.length_append]
    omega
  · exact Nat.le_refl _

/-- With more text behind it a lexeme goes on at least as far, and it does not become illegal. -/
theorem extent_of_prefix {c : Char} {front following : List Char} (first : front <+: following) :
    (extent c front).2 ≤ (extent c following).2 ∧
      ((extent c following).1 = .illegal → (extent c front).1 = .illegal) := by
  have heads : ∀ d, front.head? = some d → following.head? = some d := by
    intro d found
    obtain ⟨behind, rfl⟩ := first
    rw [List.head?_append, found, Option.some_or]
  by_cases start : isNameStart c = true
  · simp [extent, start, length_takeWhile_le first]
  by_cases digit : c.isDigit = true
  · simp [extent, start, digit, length_takeWhile_le first]
  by_cases quote : c = '"'
  · have content : (front.takeWhile (· != '"')).length ≤ (following.takeWhile (· != '"')).length :=
      length_takeWhile_le first
    have within := first.length_le
    subst quote
    rw [extent_quote, extent_quote]
    simp only [quotedLength]
    exact ⟨by omega, id⟩
  -- What is left are marks, and those of two characters look at the next one only.
  have marks : ∀ cs, extent c cs =
      if c == '*' && cs.head? == some '*' then (.power, 1)
      else if c == '=' && cs.head? == some '=' then (.equal, 1)
      else ((mark? c).getD .illegal, 0) := fun cs => by
    simp only [extent, start, digit, beq_eq_false_iff_ne.mpr quote, Bool.false_eq_true, if_false]
  by_cases power : (c == '*' && front.head? == some '*') = true
  · simp only [Bool.and_eq_true, beq_iff_eq] at power
    rw [marks front, marks following]
    simp [power.1, power.2, heads '*' power.2]
  by_cases equal : (c == '=' && front.head? == some '=') = true
  · simp only [Bool.and_eq_true, beq_iff_eq] at equal
    rw [marks front, marks following]
    simp [equal.1, equal.2, heads '=' equal.2]
  rw [marks front, if_neg power, if_neg equal]
  refine ⟨Nat.zero_le _, fun illegal => ?_⟩
  rw [marks following] at illegal
  split at illegal
  · cases illegal
  split at illegal
  · cases illegal
  · exact illegal

end Lexeme

end ContractLens
