import ContractLens.Proofs.LineIndex.Count
import ContractLens.Proofs.Token.Lookahead

/-!
# Scans and what they cover

However often a scanner is asked, it gives the tokens of its text in their order and
then the end of the input again and again.  Its line index covers the text just up to
the end of the last token that was given, so a lexeme has a coordinate as soon as it
has been given, and the end of the input never has one.
-/

namespace ContractLens

namespace Token

/-- The offset just behind a token. -/
def endPos : Token → Nat
  | lexeme l => l.endPos
  | endOfInput pos => pos

/-- The offset behind the last of some tokens; in front of the first token it is zero. -/
def endBehind (tokens : List Token) : Nat :=
  (tokens.getLast?.map endPos).getD 0

theorem endBehind_map_lexeme (lexemes : List Lexeme) :
    endBehind (lexemes.map .lexeme) = Scanner.endBehind 0 lexemes := by
  rw [endBehind, List.getLast?_map, Option.map_map]
  rfl

end Token

variable {text : String} {count : Nat}

/-- The tokens that a number of scans give: those of the text, and then its end again and again. -/
def scannedTokens (text : String) (count : Nat) : List Token :=
  (tokensOf text ++ List.replicate count (Token.endOfInput text.length)).take count

/-- Either some first lexemes are given, or all tokens and then the end again and again. -/
theorem scannedTokens_cases (text : String) (count : Nat) :
    (∃ taken rest, lexemesOf text = taken ++ rest ∧ taken.length = count ∧
        scannedTokens text count = taken.map .lexeme) ∨
      ∃ more, (tokensOf text).length + more = count ∧
        scannedTokens text count =
          tokensOf text ++ List.replicate more (.endOfInput text.length) := by
  have length : (tokensOf text).length = (lexemesOf text).length + 1 := by simp [tokensOf]
  rcases Nat.lt_or_ge (lexemesOf text).length count with beyond | within
  · rw [← Nat.succ_le_iff, Nat.succ_eq_add_one, ← length] at beyond
    obtain ⟨more, rfl⟩ := Nat.exists_eq_add_of_le beyond
    refine .inr ⟨more, rfl, ?_⟩
    rw [scannedTokens, List.take_length_add_append, List.take_replicate,
      Nat.min_eq_left (Nat.le_add_left more _)]
  · refine .inl ⟨(lexemesOf text).take count, (lexemesOf text).drop count,
      (List.take_append_drop _ _).symm, List.length_take_of_le within, ?_⟩
    rw [scannedTokens, tokensOf, List.append_assoc,
      List.take_append_of_le_length (by simpa using within), List.map_take]

theorem endBehind_tokensOf (text : String) (more : Nat) :
    Token.endBehind (tokensOf text ++ List.replicate more (.endOfInput text.length)) =
      text.length := by
  cases more with
  | zero => simp [Token.endBehind, tokensOf, Token.endPos]
  | succ more => simp [Token.endBehind, List.replicate_succ', ← List.append_assoc, Token.endPos]

/-- Scanning does not go beyond the end of the text. -/
theorem endBehind_scannedTokens_le (text : String) (count : Nat) :
    Token.endBehind (scannedTokens text count) ≤ text.length := by
  rcases scannedTokens_cases text count with ⟨taken, rest, whole, _, tokens⟩ | ⟨more, _, tokens⟩
  · rw [tokens, Token.endBehind_map_lexeme, Scanner.endBehind]
    cases last : taken.getLast? with
    | none => exact Nat.zero_le _
    | some lexeme =>
        have member := List.mem_of_getLast? last
        exact endPos_le_of_mem_lexemesOf (by simp [whole, member])
  · rw [tokens, endBehind_tokensOf]

theorem pos_lt_endBehind {lexeme : Lexeme}
    (given : Token.lexeme lexeme ∈ scannedTokens text count) :
    lexeme.pos < Token.endBehind (scannedTokens text count) := by
  rcases scannedTokens_cases text count with ⟨taken, rest, whole, _, tokens⟩ | ⟨more, _, tokens⟩
  · have member : lexeme ∈ taken := by simpa [tokens] using given
    obtain ⟨front, last, rfl⟩ := taken.eq_nil_or_concat'.resolve_left (List.ne_nil_of_mem member)
    have inside : last ∈ lexemesOf text := by simp [whole]
    have ends : Token.endBehind ((front ++ [last]).map .lexeme) = last.endPos := by
      simp [Token.endBehind, Token.endPos]
    rw [tokens, ends]
    rcases List.mem_append.mp member with inFront | isLast
    · have ordered := pairwise_pos_lexemesFrom 0 text.toList
      rw [← lexemesOf, whole, List.pairwise_append, List.pairwise_append] at ordered
      exact Nat.lt_trans (ordered.1.2.2 lexeme inFront last (by simp))
        (pos_lt_endPos_of_mem_lexemesOf inside)
    · rw [List.mem_singleton.mp isLast]
      exact pos_lt_endPos_of_mem_lexemesOf inside
  · rw [tokens, endBehind_tokensOf]
    exact pos_lt_of_mem_lexemesOf (by simpa [tokens, tokensOf] using given)

theorem endBehind_of_mem (ends : Token.endOfInput text.length ∈ scannedTokens text count) :
    Token.endBehind (scannedTokens text count) = text.length := by
  rcases scannedTokens_cases text count with ⟨taken, _, _, _, tokens⟩ | ⟨more, _, tokens⟩
  · simp [tokens] at ends
  · rw [tokens, endBehind_tokensOf]

theorem mem_tokensOf_of_given {token : Token} (given : token ∈ scannedTokens text count) :
    token ∈ tokensOf text := by
  rcases List.mem_append.mp (List.mem_of_mem_take given) with isToken | isEnd
  · exact isToken
  · rw [(List.mem_replicate.mp isEnd).2]
    exact List.mem_append_right _ (List.mem_singleton_self _)

/-! ## Scans -/

theorem Scanner.scanMany_of_passed {scanner : Scanner} (passed : scanner.rest = [])
    (count : Nat) :
    scanMany count scanner = (List.replicate count (.endOfInput scanner.offset), scanner) := by
  have nothing : lexemesFrom scanner.offset scanner.rest = [] := by
    rw [passed]
    exact lexemesFrom_of_none rfl
  have stays : scanner.scan = (.endOfInput scanner.offset, scanner) := by
    obtain ⟨offset, rest, index⟩ := scanner
    subst passed
    exact scan_of_no_lexeme nothing
  induction count with
  | zero => rfl
  | succ count ih => simp [scanMany, stays, ih, List.replicate_succ]

/-- Scans give the tokens of the text and pass the text up to the end of the last one. -/
theorem scanMany_start (text : String) (count : Nat) :
    (Scanner.start text .empty).scanMany count =
      (scannedTokens text count,
        (Scanner.start text .empty).advance (Token.endBehind (scannedTokens text count))) := by
  rcases scannedTokens_cases text count with
    ⟨taken, rest, whole, rfl, tokens⟩ | ⟨more, rfl, tokens⟩
  · obtain ⟨passed, _, scanned, ends, _⟩ := Scanner.scanMany_lexemes (.start text .empty) whole
    have start : (Scanner.start text .empty).offset = 0 := rfl
    rw [start, Nat.zero_add] at ends
    rw [scanned, tokens, Token.endBehind_map_lexeme, ends]
  · have passed : ((Scanner.start text .empty).advance text.length).rest = [] := by
      apply List.drop_of_length_le
      exact Nat.le_of_eq String.length_toList
    have offset : ((Scanner.start text .empty).advance text.length).offset = text.length :=
      Nat.zero_add _
    rw [Scanner.scanMany_add, scanMany_start_tokens, Scanner.scanMany_of_passed passed, offset,
      tokens, endBehind_tokensOf]

/-! ## Coordinates of tokens -/

theorem isSome_coordinate?_iff {token : Token} (given : token ∈ scannedTokens text count) :
    ((LineIndex.empty.record 0
        (text.toList.take (Token.endBehind (scannedTokens text count)))).coordinate?
      token.pos).isSome = true ↔ token ≠ .endOfInput text.length := by
  cases List.mem_append.mp (mem_tokensOf_of_given given) with
  | inl isLexeme =>
      obtain ⟨lexeme, inside, rfl⟩ := List.mem_map.mp isLexeme
      obtain ⟨c, found, noFeed⟩ := exists_first_of_mem_lexemesOf inside
      have coordinate := LineIndex.coordinate?_record_take (pos_lt_endBehind given) found noFeed
      simp [Token.pos, coordinate]
  | inr isEnd =>
      rw [List.mem_singleton.mp isEnd]
      have outside : Token.endBehind (scannedTokens text count) ≤ text.length ∨
          text.toList[text.length]? = some '\n' :=
        .inl (endBehind_scannedTokens_le text count)
      simp [Token.pos, LineIndex.coordinate?_record_take_eq_none outside]

/-- What a number of scans of a text give, and what the line index says behind them. -/
structure ScannedInStep (text : String) (count : Nat) (tokens : List Token)
    (index : LineIndex) : Prop where
  /-- The tokens of the text come first, and then its end again and again. -/
  given : tokens = scannedTokens text count
  /-- The index covers the text up to the end of the last token, and nothing else. -/
  covered : index = LineIndex.empty.record 0 (text.toList.take (Token.endBehind tokens))
  /-- Once the end of the input was given, the whole text is covered. -/
  ended : Token.endOfInput text.length ∈ tokens → index = LineIndex.ofText text
  /-- What is not covered has no coordinate, and no line feed has one. -/
  absent : ∀ offset, Token.endBehind tokens ≤ offset ∨ text.toList[offset]? = some '\n' →
    index.coordinate? offset = none
  /-- A coordinate counts the line feeds in front, and the characters since the last of them. -/
  present : ∀ offset c, offset < Token.endBehind tokens → text.toList[offset]? = some c →
    c ≠ '\n' → index.coordinate? offset = some
      ⟨(text.toList.take offset).count '\n' + 1, sinceLineFeed (text.toList.take offset) + 1⟩
  /-- There is one line more than line feeds. -/
  lineCount : index.lineCount = 1 + (text.toList.take (Token.endBehind tokens)).count '\n'
  /-- All covered characters are recorded, except for the line feeds. -/
  size : index.size =
    Token.endBehind tokens - (text.toList.take (Token.endBehind tokens)).count '\n'
  /-- Of the tokens that were given, just the lexemes have coordinates. -/
  located : ∀ token ∈ tokens,
    (index.coordinate? token.pos).isSome = true ↔ token ≠ .endOfInput text.length
  /-- Once all tokens were given, all lexemes of the text have coordinates; its end has none. -/
  complete : (tokensOf text).length ≤ count → ∀ token ∈ tokensOf text,
    (index.coordinate? token.pos).isSome = true ↔ token ≠ .endOfInput text.length

/-- Any number of scans of a text keep its tokens and its line index in step. -/
theorem scannedInStep (text : String) (count : Nat) :
    ScannedInStep text count ((Scanner.start text .empty).scanMany count).1
      ((Scanner.start text .empty).scanMany count).2.index := by
  rw [scanMany_start]
  constructor
  case given => rfl
  case covered => rfl
  case ended =>
    intro ends
    have whole := endBehind_of_mem ends
    simp only [Scanner.advance, Scanner.start, LineIndex.ofText]
    rw [whole, List.take_of_length_le (Nat.le_of_eq String.length_toList)]
  case absent =>
    intro offset outside
    exact LineIndex.coordinate?_record_take_eq_none outside
  case present =>
    intro offset c within found noFeed
    exact LineIndex.coordinate?_record_take within found noFeed
  case lineCount => exact LineIndex.lineCount_record _ _ _
  case size =>
    have total := LineIndex.size_record .empty 0
      (text.toList.take (Token.endBehind (scannedTokens text count)))
    rw [List.length_take, String.length_toList,
      Nat.min_eq_left (endBehind_scannedTokens_le text count)] at total
    have nothing : LineIndex.empty.size = 0 := rfl
    exact Nat.eq_sub_of_add_eq (total.trans (by rw [nothing, Nat.zero_add]))
  case located =>
    intro token given
    exact isSome_coordinate?_iff given
  case complete =>
    intro all token member
    apply isSome_coordinate?_iff
    rw [scannedTokens, List.take_append]
    exact List.mem_append_left _ (by rwa [List.take_of_length_le all])

end ContractLens
