/-!
# Gaps

A gap is the text before a lexeme that means nothing: blanks, and comments that
run from `//` up to the next line feed.  The line feed itself is a blank.
-/

namespace ContractLens.Gap

/-- A blank: a space, a tab, a carriage return or a line feed. -/
def isBlank (c : Char) : Bool :=
  c == ' ' || c == '\t' || c == '\r' || c == '\n'

/--
Whether a comment is open behind `c`, if `c` belongs to a gap at all; `inComment`
says whether one is open before it, and `next` is the character that follows.
-/
def extend? (inComment : Bool) (c : Char) (next : Option Char) : Option Bool :=
  if inComment then
    some (c != '\n')
  else if isBlank c then
    some false
  else if c == '/' && next == some '/' then
    some true
  else
    none

/-- The number of characters of the gap at the front of a text. -/
def length (inComment : Bool) : List Char → Nat
  | [] => 0
  | c :: cs =>
      match extend? inComment c cs.head? with
      | some inComment => length inComment cs + 1
      | none => 0

/-- What follows the gap at the front of a text. -/
def skip (cs : List Char) : List Char :=
  cs.drop (length false cs)

theorem length_le (inComment : Bool) (cs : List Char) :
    length inComment cs ≤ cs.length := by
  induction cs generalizing inComment with
  | nil => exact Nat.le_refl 0
  | cons c cs ih =>
      simp only [length, List.length_cons]
      split
      · next inside _ => exact Nat.succ_le_succ (ih inside)
      · exact Nat.zero_le _

/-- The gap and what follows it make up the text. -/
theorem take_append_skip (cs : List Char) :
    cs.take (length false cs) ++ skip cs = cs :=
  List.take_append_drop _ cs

theorem length_skip (cs : List Char) :
    (skip cs).length = cs.length - length false cs := by
  simp [skip]

end ContractLens.Gap
