import ContractLens.Proofs.Grammar.Layout
import ContractLens.Proofs.Grammar.ProgramProgress
import ContractLens.Proofs.Token.Scan

/-!
# Lookahead

A parse scans the lexemes that it takes and one token more: the first one to begin with,
and the next one whenever the cursor over the lexemes is advanced.  So a text that is
accepted has been scanned to its end, and the line index of a text that is refused
ends just behind the token at which it is refused.
-/

namespace ContractLens

namespace Scanner

theorem scanMany_add (first second : Nat) (scanner : Scanner) :
    scanMany (first + second) scanner =
      ((scanMany first scanner).1 ++ (scanMany second (scanMany first scanner).2).1,
        (scanMany second (scanMany first scanner).2).2) := by
  induction first generalizing scanner with
  | zero => simp [scanMany]
  | succ first ih => simp [Nat.succ_add, scanMany, ih]

/-- Where the last of some lexemes ends, or where the text in front of them begins. -/
def endBehind (offset : Nat) (lexemes : List Lexeme) : Nat :=
  (lexemes.getLast?.map Lexeme.endPos).getD offset

theorem endBehind_cons (offset : Nat) (first : Lexeme) (lexemes : List Lexeme) :
    endBehind offset (first :: lexemes) = endBehind first.endPos lexemes := by
  simp only [endBehind, List.getLast?_cons]
  cases lexemes.getLast? <;> rfl

/-- As many scans as there are first lexemes give these and end behind the last of them. -/
theorem scanMany_lexemes (scanner : Scanner) {taken rest : List Lexeme}
    (whole : lexemesFrom scanner.offset scanner.rest = taken ++ rest) :
    ∃ count, count ≤ scanner.rest.length ∧
      scanMany taken.length scanner = (taken.map .lexeme, scanner.advance count) ∧
      scanner.offset + count = endBehind scanner.offset taken ∧
      lexemesFrom (scanner.offset + count) (scanner.rest.drop count) = rest := by
  induction taken generalizing scanner with
  | nil => exact ⟨0, Nat.zero_le _, rfl, rfl, whole⟩
  | cons first taken ih =>
      cases read : Lexeme.next? scanner.offset scanner.rest with
      | none =>
          rw [lexemesFrom_of_none read] at whole
          cases whole
      | some found =>
          obtain ⟨lexeme, behind⟩ := found
          rw [lexemesFrom_of_some read] at whole
          obtain ⟨rfl, remaining⟩ := List.cons.inj whole
          obtain ⟨step, within, scanned, place, left⟩ := snd_scan_of_some read
          have token : scanner.scan.1 = .lexeme lexeme := by rw [scan, read]
          rw [← place, ← left] at remaining
          obtain ⟨count, inside, tokens, ends, others⟩ := ih (scanner.advance step) remaining
          simp only [advance, List.length_drop, List.drop_drop, Nat.add_assoc] at inside ends others
          rw [advance_advance _ within] at tokens
          refine ⟨step + count, by omega, ?_, ?_, others⟩
          · simp [scanMany, token, scanned, tokens]
          · rw [ends, endBehind_cons, ← place]
            rfl

theorem scan_of_no_lexeme {scanner : Scanner}
    (nothing : lexemesFrom scanner.offset scanner.rest = []) :
    scanner.scan = (.endOfInput (scanner.offset + scanner.rest.length),
      scanner.advance scanner.rest.length) := by
  cases read : Lexeme.next? scanner.offset scanner.rest with
  | none => rw [scan, read]
  | some found =>
      rw [lexemesFrom_of_some read] at nothing
      cases nothing

end Scanner

variable {text : String}

/-- Scanning a text up to one of its lexemes passes the text up to the end of this lexeme. -/
theorem scanMany_start_lexemes {taken rest : List Lexeme} {lexeme : Lexeme}
    (whole : lexemesOf text = taken ++ lexeme :: rest) :
    (Scanner.start text .empty).scanMany (taken.length + 1) =
      ((taken ++ [lexeme]).map .lexeme, (Scanner.start text .empty).advance lexeme.endPos) := by
  have through : lexemesOf text = (taken ++ [lexeme]) ++ rest := by simp [whole]
  obtain ⟨count, _, scanned, ends, _⟩ := Scanner.scanMany_lexemes (.start text .empty) through
  have start : (Scanner.start text .empty).offset = 0 := rfl
  have last : Scanner.endBehind 0 (taken ++ [lexeme]) = lexeme.endPos := by
    simp [Scanner.endBehind]
  rw [start, last, Nat.zero_add] at ends
  rwa [ends, List.length_append, List.length_singleton] at scanned

theorem scanMany_start_tokens (text : String) :
    (Scanner.start text .empty).scanMany (tokensOf text).length =
      (tokensOf text, (Scanner.start text .empty).advance text.length) := by
  have whole : lexemesOf text = lexemesOf text ++ [] := (List.append_nil _).symm
  obtain ⟨count, within, scanned, _, nothing⟩ :=
    Scanner.scanMany_lexemes (.start text .empty) whole
  have length : (Scanner.start text .empty).rest.length = text.length := String.length_toList
  rw [length] at within
  have remaining : ((Scanner.start text .empty).advance count).rest.length =
      text.length - count := by
    rw [← length]
    exact List.length_drop
  have last : ((Scanner.start text .empty).advance count).scan =
      (.endOfInput text.length, (Scanner.start text .empty).advance text.length) := by
    have place : ((Scanner.start text .empty).advance count).offset = count := Nat.zero_add count
    rw [Scanner.scan_of_no_lexeme nothing, remaining, place, Scanner.advance_advance,
      Nat.add_sub_of_le within]
    rwa [length]
  have tokens : (tokensOf text).length = (lexemesOf text).length + 1 := by simp [tokensOf]
  rw [tokens, Scanner.scanMany_add, scanned]
  simp [Scanner.scanMany, last, tokensOf]

theorem index_scanMany_tokens (text : String) :
    ((Scanner.start text .empty).scanMany (tokensOf text).length).2.index =
      LineIndex.ofText text := by
  rw [scanMany_start_tokens]
  simp only [Scanner.advance, Scanner.start, LineIndex.ofText]
  rw [List.take_of_length_le (Nat.le_of_eq String.length_toList)]

/-! ## What a parse scans -/

/-- The scans of a parse: one for each lexeme that is taken, and one more. -/
def scansOf (text : String) : Nat :=
  (lexemesOf text).length - (Grammar.readProgram (lexemesOf text)).rest.length + 1

/-- The tokens that a parse scans. -/
def scannedBy (text : String) : List Token :=
  ((Scanner.start text .empty).scanMany (scansOf text)).1

theorem snd_parse (text : String) :
    (parse text).2 = ((Scanner.start text .empty).scanMany (scansOf text)).2.index :=
  rfl

/-- An error is found at the token in front of what was not read. -/
theorem found_of_parse {error : ParseError} (failed : (parse text).1 = .error error) :
    error.found = Grammar.lookahead text.length (Grammar.readProgram (lexemesOf text)).rest := by
  simp only [parse, parseInto] at failed
  cases result : (Grammar.readProgram (lexemesOf text)).result with
  | ok program =>
      rw [result] at failed
      cases failed
  | error cause =>
      rw [result] at failed
      cases failed
      rfl

theorem exists_taken (text : String) :
    ∃ taken, lexemesOf text = taken ++ (Grammar.readProgram (lexemesOf text)).rest ∧
      scansOf text = taken.length + 1 := by
  obtain ⟨taken, whole, _⟩ :=
    Grammar.follows_wholeProgram (Nat.le_refl (3 * (lexemesOf text).length + 3))
  have length := congrArg List.length whole
  rw [List.length_append] at length
  exact ⟨taken, whole, Nat.succ_inj.mpr (Nat.sub_eq_of_eq_add length)⟩

/-- What a parse of a text scans. -/
structure ScansOfParse (text : String) : Prop where
  /-- One token is scanned in front, and one at each advance of the cursor that reads the text. -/
  advances : ∀ limit, 3 * (lexemesOf text).length + 3 ≤ limit →
    ∃ after : Grammar.Cursor, scansOf text = after.advances + 1 ∧
      match (parse text).1 with
      | .ok program => Grammar.wholeProgram limit ⟨lexemesOf text, 0⟩ = .ok program after
      | .error error =>
          Grammar.wholeProgram limit ⟨lexemesOf text, 0⟩ = .error (.refused error.cause) after ∧
            error.found = Grammar.lookahead text.length after.unread
  /-- No token is scanned behind the end of the input. -/
  once : scannedBy text <+: tokensOf text
  /-- A text that is accepted is scanned to its end, as if all its tokens were asked for. -/
  accepted : ∀ program, (parse text).1 = .ok program →
    scannedBy text = tokensOf text ∧
      (parse text).2 = ((Scanner.start text .empty).scanMany (tokensOf text).length).2.index ∧
      (parse text).2 = LineIndex.ofText text ∧
      ∀ offset position, StandsAt text.toList offset position →
        (parse text).2.coordinate? offset = some position.toCoordinate
  /-- A text that is refused is scanned up to the token that the error names. -/
  refused : ∀ error, (parse text).1 = .error error →
    (tokensOf text).count error.found = 1 ∧
      (scannedBy text).getLast? = some error.found ∧
      error.found.pos + error.found.literal.length ≤ text.length ∧
      (parse text).2 = LineIndex.empty.record 0
        (text.toList.take (error.found.pos + error.found.literal.length)) ∧
      (error.found = .endOfInput text.length → (parse text).2 = LineIndex.ofText text)

/-- Either a parse scans all tokens, or it ends behind the first lexeme that it does not take. -/
theorem scans_cases (text : String) :
    (Grammar.readProgram (lexemesOf text)).rest = [] ∧ scannedBy text = tokensOf text ∧
        (parse text).2 = LineIndex.ofText text ∨
      ∃ taken lexeme rest, (Grammar.readProgram (lexemesOf text)).rest = lexeme :: rest ∧
        lexemesOf text = taken ++ lexeme :: rest ∧
        scannedBy text = (taken ++ [lexeme]).map .lexeme ∧
        (parse text).2 = LineIndex.empty.record 0 (text.toList.take lexeme.endPos) := by
  obtain ⟨taken, whole, scans⟩ := exists_taken text
  rw [snd_parse, scannedBy, scans]
  cases left : (Grammar.readProgram (lexemesOf text)).rest with
  | nil =>
      rw [left, List.append_nil] at whole
      have tokens : taken.length + 1 = (tokensOf text).length := by simp [tokensOf, whole]
      rw [tokens, index_scanMany_tokens, scanMany_start_tokens]
      exact .inl ⟨rfl, rfl, rfl⟩
  | cons lexeme rest =>
      rw [left] at whole
      rw [scanMany_start_lexemes whole]
      exact .inr ⟨taken, lexeme, rest, rfl, whole, rfl, rfl⟩

/-- A parse scans the tokens that it takes and one token of lookahead. -/
theorem scansOfParse (text : String) : ScansOfParse text := by
  constructor
  case advances =>
    intro limit enough
    obtain ⟨after, left, counted, run⟩ := Grammar.follows_parse enough
    refine ⟨after, ?_, run⟩
    rw [scansOf, ← left]
    omega
  case once =>
    rcases scans_cases text with ⟨_, scanned, _⟩ | ⟨taken, lexeme, rest, _, whole, scanned, _⟩
    · exact ⟨[], by rw [scanned, List.append_nil]⟩
    · rw [scanned, tokensOf, whole]
      exact ⟨rest.map .lexeme ++ [.endOfInput text.length], by simp⟩
  case accepted =>
    intro program parsed
    have accepts := Grammar.Outcome.accepts_iff.mpr ⟨parse_eq_ok.mp parsed, rfl⟩
    obtain ⟨_, _, _, nothing⟩ := Grammar.accepts_readProgram.mp accepts
    rcases scans_cases text with ⟨_, scanned, index⟩ | ⟨taken, lexeme, rest, left, _⟩
    · rw [index, index_scanMany_tokens]
      exact ⟨scanned, rfl, rfl, fun _ _ => (LineIndex.holds_ofText text).coordinate?_eq⟩
    · cases nothing.symm.trans left
  case refused =>
    intro error failed
    have found := found_of_parse failed
    obtain ⟨place, isToken⟩ := exists_index_of_parse failed
    have one := List.count_eq_one_of_mem (nodup_tokensOf text) (List.mem_of_getElem? isToken)
    rcases scans_cases text with ⟨left, scanned, index⟩ |
      ⟨taken, lexeme, rest, left, whole, scanned, index⟩
    · rw [left, Grammar.lookahead] at found
      refine ⟨one, ?_, ?_, ?_, fun _ => index⟩
      · rw [scanned, found]
        simp [tokensOf]
      · simp [found, Token.pos, Token.literal]
      · rw [index, found, LineIndex.ofText, List.take_of_length_le]
        exact Nat.le_of_eq String.length_toList
    · rw [left, Grammar.lookahead] at found
      have inside : lexeme.endPos ≤ text.length :=
        endPos_le_of_mem_lexemesOf (by simp [whole])
      refine ⟨one, ?_, ?_, ?_, ?_⟩
      · rw [scanned, found]
        simp
      · rwa [found]
      · rw [index, found]
        rfl
      · intro ends
        cases found.symm.trans ends

end ContractLens
