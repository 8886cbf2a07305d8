import ContractLens.LineIndex
import ContractLens.Token.Lexeme

/-!
# Scanner

A scanner hands out the tokens of a text one at a time.  Every character it
passes, gaps included, goes into its line index, and none beyond.
-/

namespace ContractLens

/-- A scanner: how far it is, the text in front of it, and the index of what lies behind. -/
structure Scanner where
  offset : Nat
  rest : List Char
  index : LineIndex
  deriving Repr

namespace Scanner

/-- A scanner at the start of a text; it goes on filling the given index. -/
def start (text : String) (index : LineIndex) : Scanner :=
  ⟨0, text.toList, index⟩

/-- Pass `count` characters and record them. -/
def advance (scanner : Scanner) (count : Nat) : Scanner where
  offset := scanner.offset + count
  rest := scanner.rest.drop count
  index := scanner.index.record scanner.offset (scanner.rest.take count)

/--
The next token, and the scanner behind it.  At the end of the input what is
left is a gap, which is passed; from then on every scan gives the end again.
-/
def scan (scanner : Scanner) : Token × Scanner :=
  match Lexeme.next? scanner.offset scanner.rest with
  | some (lexeme, _) => (.lexeme lexeme, scanner.advance (lexeme.endPos - scanner.offset))
  | none =>
      (.endOfInput (scanner.offset + scanner.rest.length), scanner.advance scanner.rest.length)

/-- The tokens of `count` scans, and the scanner behind them. -/
def scanMany : Nat → Scanner → List Token × Scanner
  | 0, scanner => ([], scanner)
  | count + 1, scanner =>
      let (token, next) := scanner.scan
      let (tokens, last) := scanMany count next
      (token :: tokens, last)

theorem advance_advance (scanner : Scanner) {first second : Nat}
    (within : first ≤ scanner.rest.length) :
    (scanner.advance first).advance second = scanner.advance (first + second) := by
  simp only [advance, List.drop_drop, Nat.add_assoc, mk.injEq, true_and]
  rw [List.take_add, LineIndex.record_append, List.length_take, Nat.min_eq_left within]

end Scanner

end ContractLens
