/-!
# Bytes of a text

A text is stored as UTF-8, in which a character takes one to four bytes.  A
byte offset counts the bytes in front of a place between characters.
-/

namespace ContractLens.Text

/-- The number of bytes of some characters. -/
def byteLength : List Char → Nat
  | [] => 0
  | c :: cs => c.utf8Size + byteLength cs

@[simp] theorem byteLength_nil : byteLength [] = 0 :=
  rfl

@[simp] theorem byteLength_cons (c : Char) (cs : List Char) :
    byteLength (c :: cs) = c.utf8Size + byteLength cs :=
  rfl

@[simp] theorem byteLength_append (front back : List Char) :
    byteLength (front ++ back) = byteLength front + byteLength back := by
  induction front with
  | nil => simp
  | cons c cs ih => simp [ih, Nat.add_assoc]

/-- The characters in front of a byte offset. -/
def takeBytes : Nat → List Char → List Char
  | _, [] => []
  | count, c :: cs =>
      if c.utf8Size ≤ count then c :: takeBytes (count - c.utf8Size) cs else []

/-- The characters behind a byte offset. -/
def dropBytes : Nat → List Char → List Char
  | _, [] => []
  | count, c :: cs =>
      if c.utf8Size ≤ count then dropBytes (count - c.utf8Size) cs else c :: cs

/-- No character lies on both sides of a byte offset, and none is lost. -/
theorem takeBytes_append_dropBytes (count : Nat) (cs : List Char) :
    takeBytes count cs ++ dropBytes count cs = cs := by
  induction cs generalizing count with
  | nil => rfl
  | cons c cs ih =>
      simp only [takeBytes, dropBytes]
      split
      · rw [List.cons_append, ih]
      · rfl

theorem takeBytes_byteLength (front back : List Char) :
    takeBytes (byteLength front) (front ++ back) = front := by
  induction front with
  | nil =>
      cases back with
      | nil => rfl
      | cons c cs =>
          have positive := Char.utf8Size_pos c
          simp only [byteLength_nil, List.nil_append, takeBytes]
          rw [if_neg (by omega)]
  | cons c cs ih => simp [takeBytes, ih]

theorem dropBytes_byteLength (front back : List Char) :
    dropBytes (byteLength front) (front ++ back) = back := by
  have whole := takeBytes_append_dropBytes (byteLength front) (front ++ back)
  rw [takeBytes_byteLength] at whole
  exact List.append_cancel_left whole

end ContractLens.Text
