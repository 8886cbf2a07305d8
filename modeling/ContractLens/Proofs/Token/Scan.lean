import ContractLens.Proofs.LineIndex.Place
import ContractLens.Proofs.Grammar.ProgramDerivation
import ContractLens.Proofs.Token.Order

/-!
# Scanning to the end

A scan passes a gap and the lexeme behind it, and the scan behind the last lexeme
passes what is left.  A text that is accepted has been scanned to its end, so its
line index holds all of it.
-/

namespace ContractLens

theorem Lexeme.drop_of_next? {offset : Nat} {cs rest : List Char} {lexeme : Lexeme}
    (read : next? offset cs = some (lexeme, rest)) :
    ∃ count, lexeme.endPos = offset + count ∧ count ≤ cs.length ∧ cs.drop count = rest := by
  have whole := text_of_next? read
  have place := pos_of_next? read
  refine ⟨(cs.take (Gap.length false cs) ++ lexeme.literal.toList).length, ?_, ?_, ?_⟩
  · rw [endPos, place, List.length_append, String.length_toList, Nat.add_assoc]
  · have total := congrArg List.length whole
    rw [List.length_append] at total
    omega
  · have behind : (cs.take (Gap.length false cs) ++ lexeme.literal.toList ++ rest).drop
        (cs.take (Gap.length false cs) ++ lexeme.literal.toList).length = rest :=
      List.drop_left
    rwa [whole] at behind

namespace Scanner

theorem snd_scan_of_some {scanner : Scanner} {lexeme : Lexeme} {rest : List Char}
    (read : Lexeme.next? scanner.offset scanner.rest = some (lexeme, rest)) :
    ∃ count, count ≤ scanner.rest.length ∧ scanner.scan.2 = scanner.advance count ∧
      (scanner.advance count).offset = lexeme.endPos ∧ (scanner.advance count).rest = rest := by
  obtain ⟨count, ends, within, left⟩ := Lexeme.drop_of_next? read
  refine ⟨count, within, ?_, ends.symm, left⟩
  have steps : lexeme.endPos - scanner.offset = count := by omega
  rw [scan, read]
  exact congrArg scanner.advance steps

/-- As many scans as there are lexemes and one more pass the whole text. -/
theorem snd_scanMany (scanner : Scanner) :
    (scanMany ((lexemesFrom scanner.offset scanner.rest).length + 1) scanner).2 =
      scanner.advance scanner.rest.length := by
  cases read : Lexeme.next? scanner.offset scanner.rest with
  | none =>
      rw [lexemesFrom_of_none read]
      simp [scanMany, scan, read]
  | some found =>
      obtain ⟨first, rest⟩ := found
      obtain ⟨count, within, scanned, place, left⟩ := snd_scan_of_some read
      have shorter : (scanner.advance count).rest.length < scanner.rest.length := by
        rw [left]
        exact Lexeme.length_lt_of_next? read
      have behind := snd_scanMany (scanner.advance count)
      have remaining : rest.length = scanner.rest.length - count := by
        rw [← left]
        exact List.length_drop
      rw [place, left, remaining, advance_advance _ within, Nat.add_sub_of_le within] at behind
      rw [lexemesFrom_of_some read, List.length_cons, scanMany]
      simpa only [scanned] using behind
termination_by scanner.rest.length

end Scanner

theorem index_of_parse {text : String} {program : Program}
    (parsed : (parse text).1 = .ok program) : (parse text).2 = LineIndex.ofText text := by
  have accepts := Grammar.Outcome.accepts_iff.mpr ⟨parse_eq_ok.mp parsed, rfl⟩
  obtain ⟨_, _, _, nothing⟩ := Grammar.accepts_readProgram.mp accepts
  have whole := Scanner.snd_scanMany (Scanner.start text .empty)
  have index : ((Scanner.start text .empty).advance text.toList.length).index =
      LineIndex.ofText text := by
    simp [Scanner.advance, Scanner.start, LineIndex.ofText]
  have scans : (lexemesOf text).length - (Grammar.readProgram (lexemesOf text)).rest.length =
      (lexemesOf text).length := by
    rw [nothing]
    rfl
  rw [← index]
  simp only [parse, parseInto, scans]
  exact congrArg Scanner.index whole

theorem parse_eq_of_ok {text : String} {program : Program}
    (parsed : (parse text).1 = .ok program) :
    parse text = (.ok program, LineIndex.ofText text) :=
  Prod.ext parsed (index_of_parse parsed)

theorem parse_eq_of_error {text : String} {error : ParseError}
    (failed : (parse text).1 = .error error) : parse text = (.error error, (parse text).2) :=
  Prod.ext failed rfl

end ContractLens
