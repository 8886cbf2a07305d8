import ContractLens.Proofs.Syntax.Relocation
import Mathlib.Logic.Equiv.Basic

/-!
# Layouts

Two texts of one sequence of symbols differ in their gaps only.  The tokens of a
text stand at ascending offsets, so those of another layout are the same tokens
moved by a function that keeps offsets apart.
-/

namespace ContractLens

namespace Token

/-- The symbol of a token; the end of the input has none. -/
def symbol? : Token → Option Symbol
  | lexeme l => some l.symbol
  | endOfInput _ => none

def relocate (move : Nat → Nat) : Token → Token
  | lexeme l => .lexeme (l.relocate move)
  | endOfInput pos => .endOfInput (move pos)

@[simp] theorem symbol?_relocate (move : Nat → Nat) (token : Token) :
    (token.relocate move).symbol? = token.symbol? := by
  cases token <;> rfl

@[simp] theorem pos_relocate (move : Nat → Nat) (token : Token) :
    (token.relocate move).pos = move token.pos := by
  cases token <;> rfl

theorem description_eq_of_symbol? {first second : Token} (same : first.symbol? = second.symbol?) :
    first.description = second.description := by
  cases first with
  | lexeme l =>
      cases second with
      | lexeme other =>
          obtain ⟨kind, literal⟩ := Symbol.mk.inj (Option.some.inj same)
          simp [description, kind, literal]
      | endOfInput pos => cases same
  | endOfInput pos =>
      cases second with
      | lexeme other => cases same
      | endOfInput other => rfl

theorem ext_of_symbol? {first second : Token} (pos : first.pos = second.pos)
    (same : first.symbol? = second.symbol?) : first = second := by
  cases first with
  | lexeme l =>
      cases second with
      | lexeme other =>
          exact congrArg Token.lexeme (Lexeme.ext_of_symbol pos (Option.some.inj same))
      | endOfInput other => cases same
  | endOfInput pos =>
      cases second with
      | lexeme other => cases same
      | endOfInput other => exact congrArg Token.endOfInput pos

end Token

/-! ## Offsets of tokens -/

theorem endPos_le_of_mem_lexemesOf {text : String} {lexeme : Lexeme}
    (member : lexeme ∈ lexemesOf text) : lexeme.endPos ≤ text.length := by
  obtain ⟨before, after, whole, pos⟩ := stands_of_mem_lexemesFrom lexeme member
  have total := congrArg List.length whole
  simp only [List.length_append, String.length_toList] at total
  rw [Lexeme.endPos, pos]
  omega

theorem pos_lt_endPos_of_mem_lexemesOf {text : String} {lexeme : Lexeme}
    (member : lexeme ∈ lexemesOf text) : lexeme.pos < lexeme.endPos := by
  apply Nat.lt_add_of_pos_right
  exact forall_mem_lexemesFrom Lexeme.length_pos_of_next? 0 text.toList lexeme member

theorem pos_lt_of_mem_lexemesOf {text : String} {lexeme : Lexeme}
    (member : lexeme ∈ lexemesOf text) : lexeme.pos < text.length :=
  Nat.lt_of_lt_of_le (pos_lt_endPos_of_mem_lexemesOf member) (endPos_le_of_mem_lexemesOf member)

theorem pairwise_pos_tokensOf (text : String) : (tokensOf text).Pairwise (·.pos < ·.pos) := by
  rw [tokensOf, List.pairwise_append]
  refine ⟨List.pairwise_map.mpr (pairwise_pos_lexemesFrom 0 text.toList), by simp, ?_⟩
  intro token member last isLast
  obtain ⟨lexeme, inside, rfl⟩ := List.mem_map.mp member
  rw [List.mem_singleton.mp isLast]
  exact pos_lt_of_mem_lexemesOf inside

theorem nodup_pos_lexemesOf (text : String) : ((lexemesOf text).map Lexeme.pos).Nodup :=
  List.pairwise_map.mpr ((pairwise_pos_lexemesFrom 0 text.toList).imp fun before =>
    Nat.ne_of_lt before)

theorem nodup_pos_tokensOf (text : String) : ((tokensOf text).map Token.pos).Nodup :=
  List.pairwise_map.mpr ((pairwise_pos_tokensOf text).imp Nat.ne_of_lt)

theorem nodup_tokensOf (text : String) : (tokensOf text).Nodup := by
  refine (pairwise_pos_tokensOf text).imp ?_
  rintro token _ before rfl
  exact Nat.lt_irrefl _ before

theorem getElem?_tokensOf_inj {text : String} {token : Token} {index place : Nat}
    (found : (tokensOf text)[index]? = some token)
    (foundToo : (tokensOf text)[place]? = some token) : place = index := by
  have within : place < (tokensOf text).length := (List.getElem?_eq_some_iff.mp foundToo).1
  exact (List.getElem?_inj within (nodup_tokensOf text)).mp (foundToo.trans found.symm)

/-! ## Moving tokens -/

/-- Different offsets can be moved to different offsets, whichever they are, by one function. -/
theorem exists_injective_move {first second : List Nat} (apart : first.Nodup)
    (apartMoved : second.Nodup) (length : first.length = second.length) :
    ∃ move : Nat → Nat, Function.Injective move ∧ first.map move = second := by
  induction first generalizing second with
  | nil => exact ⟨id, Function.injective_id, by simpa [eq_comm] using length⟩
  | cons pos first ih =>
      cases second with
      | nil => cases length
      | cons target second =>
          obtain ⟨noPos, apart⟩ := List.nodup_cons.mp apart
          obtain ⟨noTarget, apartMoved⟩ := List.nodup_cons.mp apartMoved
          obtain ⟨move, injective, rfl⟩ := ih apart apartMoved (Nat.succ.inj length)
          -- Exchanging the offset that the function gives with the wanted one keeps all others.
          refine ⟨Equiv.swap (move pos) target ∘ move,
            (Equiv.swap (move pos) target).injective.comp injective, ?_⟩
          have kept : ∀ other ∈ first, Equiv.swap (move pos) target (move other) = move other := by
            intro other member
            refine Equiv.swap_apply_of_ne_of_ne ?_ ?_
            · intro same
              rw [injective same] at member
              exact noPos member
            · rintro rfl
              exact noTarget (List.mem_map_of_mem member)
          rw [List.map_cons, Function.comp_apply, Equiv.swap_apply_left]
          exact congrArg _ (List.map_congr_left kept)

theorem exists_move {first second : List Nat} (apart : first.Nodup)
    (length : first.length = second.length) : ∃ move : Nat → Nat, first.map move = second := by
  induction first generalizing second with
  | nil => exact ⟨id, by simpa [eq_comm] using length⟩
  | cons pos first ih =>
      cases second with
      | nil => cases length
      | cons target second =>
          obtain ⟨noPos, apart⟩ := List.nodup_cons.mp apart
          obtain ⟨move, rfl⟩ := ih apart (Nat.succ.inj length)
          refine ⟨Function.update move pos target, ?_⟩
          have kept : ∀ other ∈ first, Function.update move pos target other = move other := by
            intro other member
            refine Function.update_of_ne ?_ _ _
            rintro rfl
            exact noPos member
          rw [List.map_cons, Function.update_self]
          exact congrArg _ (List.map_congr_left kept)

/-- Lists are equal if the items agree in two parts by which an item is known. -/
theorem eq_of_map_eq {Item Place Content : Type} {place : Item → Place}
    {content : Item → Content}
    (ext : ∀ first second, place first = place second → content first = content second →
      first = second) {first second : List Item} (places : first.map place = second.map place)
    (contents : first.map content = second.map content) : first = second := by
  induction first generalizing second with
  | nil => simpa [eq_comm] using places
  | cons item first ih =>
      cases second with
      | nil => cases places
      | cons other second =>
          simp only [List.map_cons, List.cons.injEq] at places contents ⊢
          exact ⟨ext item other places.1 contents.1, ih places.2 contents.2⟩

theorem map_relocate_eq {move : Nat → Nat} {first second : List Token}
    (same : first.map Token.symbol? = second.map Token.symbol?)
    (moved : (first.map Token.pos).map move = second.map Token.pos) :
    first.map (Token.relocate move) = second := by
  apply eq_of_map_eq fun _ _ => Token.ext_of_symbol?
  · simpa [Function.comp_def] using moved
  · simpa [Function.comp_def] using same

/-- Tokens of the same symbols can be moved onto each other if they stand apart. -/
theorem exists_relocation {first second : List Token}
    (same : first.map Token.symbol? = second.map Token.symbol?)
    (apart : (first.map Token.pos).Nodup) (apartMoved : (second.map Token.pos).Nodup) :
    ∃ move, Function.Injective move ∧ first.map (Token.relocate move) = second := by
  have length : first.length = second.length := by
    simpa using congrArg List.length same
  obtain ⟨move, injective, moved⟩ := exists_injective_move apart apartMoved (by simpa using length)
  exact ⟨move, injective, map_relocate_eq same moved⟩

theorem exists_relocation_lexemes {first second : List Lexeme}
    (same : first.map Lexeme.symbol = second.map Lexeme.symbol)
    (apart : (first.map Lexeme.pos).Nodup) :
    ∃ move, first.map (Lexeme.relocate move) = second := by
  have length : (first.map Lexeme.pos).length = (second.map Lexeme.pos).length := by
    simpa using congrArg List.length same
  obtain ⟨move, moved⟩ := exists_move apart length
  refine ⟨move, eq_of_map_eq (fun _ _ => Lexeme.ext_of_symbol) ?_ ?_⟩
  · simpa [Function.comp_def] using moved
  · simpa [Function.comp_def] using same

theorem lexemesOf_of_relocated {move : Nat → Nat} {first second : String}
    (moved : (tokensOf first).map (Token.relocate move) = tokensOf second) :
    lexemesOf second = (lexemesOf first).map (Lexeme.relocate move) ∧
      second.length = move first.length := by
  rw [tokensOf, tokensOf, List.map_append, List.map_map] at moved
  obtain ⟨lexemes, ends⟩ := List.append_inj' moved rfl
  constructor
  · have unwrapped : ((lexemesOf first).map (Lexeme.relocate move)).map Token.lexeme =
        (lexemesOf second).map Token.lexeme := by
      rw [List.map_map]
      exact lexemes
    exact (List.map_inj_right fun _ _ => Token.lexeme.inj).mp unwrapped.symm
  · exact (Token.endOfInput.inj (List.singleton_inj.mp ends)).symm

end ContractLens
