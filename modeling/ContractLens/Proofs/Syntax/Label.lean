import ContractLens.Proofs.Syntax.Outline
import ContractLens.Syntax.Tree
import Mathlib.Data.List.Basic

/-!
# Labels

Every label says of which kind its node is, and the names, words, texts and offsets in
it can be read off.  Offsets are written in digits, and there is no space in a name; so
the parts of a label end where a space, an `@` or a comma stands.
-/

namespace ContractLens

/-! ## Offsets and names -/

theorem toList_toString (pos : Nat) : (toString pos).toList = Nat.toDigits 10 pos :=
  Nat.toList_repr

theorem isDigit_of_mem_toDigits {pos : Nat} : ∀ c ∈ Nat.toDigits 10 pos, c.isDigit = true :=
  fun _ => Nat.isDigit_of_mem_toDigits (by decide) (by decide)

theorem not_mem_toDigits {pos : Nat} {c : Char} (noDigit : c.isDigit = false) :
    c ∉ Nat.toDigits 10 pos := by
  intro member
  rw [isDigit_of_mem_toDigits c member] at noDigit
  cases noDigit

theorem toDigits_inj {pos other : Nat} (same : Nat.toDigits 10 pos = Nat.toDigits 10 other) :
    pos = other := by
  rw [← Nat.ofDigitChars_ten_toDigits (n := pos), same, Nat.ofDigitChars_ten_toDigits]

namespace Text

theorem bne_of_not_mem {mark : Char} {cs : List Char} (absent : mark ∉ cs) :
    ∀ c ∈ cs, (c != mark) = true := by
  intro c member
  simpa using fun is : c = mark => absent (is ▸ member)

/-- Equal texts are the same in front of the first mark and behind it. -/
theorem eq_of_append_first {mark : Char} {front other behind back : List Char}
    (same : front ++ mark :: behind = other ++ mark :: back) (first : mark ∉ front)
    (firstOther : mark ∉ other) : front = other ∧ behind = back := by
  obtain ⟨fronts, marked⟩ := eq_of_append_eq same (bne_of_not_mem first)
    (bne_of_not_mem firstOther) (by simp) (by simp)
  exact ⟨fronts, (List.cons.inj marked).2⟩

/-- Equal texts are the same in front of the last mark and behind it. -/
theorem eq_of_append_last {mark : Char} {front other behind back : List Char}
    (same : front ++ mark :: behind = other ++ mark :: back) (last : mark ∉ behind)
    (lastOther : mark ∉ back) : front = other ∧ behind = back := by
  have reversed : behind.reverse ++ mark :: front.reverse =
      back.reverse ++ mark :: other.reverse := by
    simpa using congrArg List.reverse same
  obtain ⟨ends, fronts⟩ := eq_of_append_first reversed (by simpa using last)
    (by simpa using lastOther)
  exact ⟨List.reverse_injective fronts, List.reverse_injective ends⟩

end Text

/-- The offset at the end of a label and the text in front of it can be read off. -/
theorem eq_of_placed {front other : String} {pos otherPos : Nat}
    (same : front ++ " @" ++ toString pos = other ++ " @" ++ toString otherPos) :
    front = other ∧ pos = otherPos := by
  have placed : (front.toList ++ [' ']) ++ '@' :: Nat.toDigits 10 pos =
      (other.toList ++ [' ']) ++ '@' :: Nat.toDigits 10 otherPos := by
    simpa [toList_toString] using congrArg String.toList same
  obtain ⟨fronts, digits⟩ :=
    Text.eq_of_append_last placed (not_mem_toDigits rfl) (not_mem_toDigits rfl)
  exact ⟨String.toList_injective (List.append_cancel_right fronts), toDigits_inj digits⟩

theorem eq_of_between {left otherLeft right otherRight : Nat}
    (same : toString left ++ ".." ++ toString right =
      toString otherLeft ++ ".." ++ toString otherRight) :
    left = otherLeft ∧ right = otherRight := by
  have placed : Nat.toDigits 10 left ++ '.' :: '.' :: Nat.toDigits 10 right =
      Nat.toDigits 10 otherLeft ++ '.' :: '.' :: Nat.toDigits 10 otherRight := by
    simpa [toList_toString] using congrArg String.toList same
  obtain ⟨first, second⟩ :=
    Text.eq_of_append_first placed (not_mem_toDigits rfl) (not_mem_toDigits rfl)
  exact ⟨toDigits_inj first, toDigits_inj (List.cons.inj second).2⟩

theorem Ident.ext {first second : Ident} (names : first.name = second.name)
    (places : first.pos = second.pos) : first = second := by
  cases first
  cases second
  cases names
  cases places
  rfl

theorem Ident.eq_of_label {first second : Ident} (same : first.label = second.label) :
    first = second := by
  obtain ⟨names, places⟩ := eq_of_placed same
  exact Ident.ext names places

def Ident.Spaceless (name : Ident) : Prop :=
  ' ' ∉ name.name.toList

namespace Ident

/-- A name and its offset can be read off what stands in front of a character that is no digit. -/
theorem eq_of_label_append {first second : Ident} {behind back : List Char}
    (spaceless : first.Spaceless) (spacelessOther : second.Spaceless)
    (stops : ∀ c ∈ behind.head?, c.isDigit = false)
    (stopsOther : ∀ c ∈ back.head?, c.isDigit = false)
    (same : first.label.toList ++ behind = second.label.toList ++ back) :
    first = second ∧ behind = back := by
  have lists : first.name.toList ++ ' ' :: '@' :: (Nat.toDigits 10 first.pos ++ behind) =
      second.name.toList ++ ' ' :: '@' :: (Nat.toDigits 10 second.pos ++ back) := by
    simpa [label, ToString.toString] using same
  obtain ⟨names, placed⟩ := Text.eq_of_append_first lists spaceless spacelessOther
  obtain ⟨digits, rfl⟩ := eq_of_append_eq (List.cons.inj placed).2 isDigit_of_mem_toDigits
    isDigit_of_mem_toDigits stops stopsOther
  exact ⟨Ident.ext (String.toList_injective names) (toDigits_inj digits), rfl⟩

/-- Names as they follow the first one in a list of bases. -/
def listed (names : List Ident) : List Char :=
  names.flatMap fun name => ',' :: ' ' :: name.label.toList

theorem head?_listed (names : List Ident) : ∀ c ∈ (listed names).head?, c.isDigit = false := by
  cases names with
  | nil => simp [listed]
  | cons name names => simp [listed]

theorem toList_intercalate_label (first : Ident) (others : List Ident) :
    (", ".intercalate ((first :: others).map label)).toList =
      first.label.toList ++ listed others := by
  rw [String.toList_intercalate]
  induction others generalizing first with
  | nil => simp [listed]
  | cons other others ih =>
      rw [List.map_cons, List.map_cons, List.map_cons, List.map_cons, List.intercalate_cons_cons]
      have behind := ih other
      rw [List.map_cons, List.map_cons] at behind
      rw [behind]
      simp [listed]

theorem eq_of_listed {names others : List Ident} (spaceless : ∀ name ∈ names, name.Spaceless)
    (spacelessOther : ∀ other ∈ others, other.Spaceless) (same : listed names = listed others) :
    names = others := by
  induction names generalizing others with
  | nil =>
      cases others with
      | nil => rfl
      | cons other others => simp [listed] at same
  | cons name names ih =>
      cases others with
      | nil => simp [listed] at same
      | cons other others =>
          simp only [List.mem_cons, forall_eq_or_imp] at spaceless spacelessOther
          have labels : name.label.toList ++ listed names =
              other.label.toList ++ listed others := by
            simpa [listed] using same
          obtain ⟨rfl, behind⟩ := eq_of_label_append spaceless.1 spacelessOther.1
            (head?_listed names) (head?_listed others) labels
          rw [ih spaceless.2 spacelessOther.2 behind]

end Ident

/-! ## Expressions -/

namespace Expression

/-- The word with which the label of an expression begins. -/
def word : Expression → String
  | ident _ => "Ident"
  | literal .integer _ _ => "Int"
  | literal .string _ _ => "String"
  | binary _ _ _ _ => "Binary"
  | call _ _ _ _ => "Call"
  | index _ _ => "Index"
  | selector _ _ => "Selector"
  | paren _ _ => "Paren"

/-- What stands behind that word. -/
def details : Expression → String
  | ident name => " " ++ name.label
  | literal _ text pos => " " ++ text ++ " @" ++ toString pos
  | binary _ operator pos _ => " " ++ operator.mark ++ " @" ++ toString pos
  | call _ _ leftParen rightParen =>
      " @" ++ (toString leftParen ++ ".." ++ toString rightParen)
  | selector _ member => " ." ++ member.label
  | index _ _ | paren _ _ => ""

def children : Expression → List Expression
  | binary left _ _ right => [left, right]
  | call callee arguments _ _ => callee :: arguments
  | index base subscript => [base, subscript]
  | selector base _ => [base]
  | paren _ inner => [inner]
  | ident _ | literal _ _ _ => []

theorem outline_eq (expression : Expression) :
    expression.outline =
      .node (expression.word ++ expression.details) (expression.children.map outline) := by
  have labels : ∀ {label other : String} {outlines : List Outline}, label.toList = other.toList →
      Outline.node label outlines = .node other outlines := by
    intro label other outlines same
    rw [String.toList_injective same]
  cases expression with
  | literal kind text pos =>
      cases kind
      all_goals
        rw [outline]
        exact labels (by simp [word, details, ToString.toString])
  | _ =>
      rw [outline]
      exact labels (by simp [word, details, ToString.toString])

/-- The same label: the same kind of node with the same names, texts, operators and offsets. -/
inductive SameLabel : Expression → Expression → Prop where
  | ident {name : Ident} : SameLabel (.ident name) (.ident name)
  | literal {kind : LiteralKind} {text : String} {pos : Nat} :
      SameLabel (.literal kind text pos) (.literal kind text pos)
  | binary {operator : Operator} {pos : Nat} {left right otherLeft otherRight : Expression} :
      SameLabel (.binary left operator pos right) (.binary otherLeft operator pos otherRight)
  | call {leftParen rightParen : Nat} {callee otherCallee : Expression}
      {arguments otherArguments : List Expression} :
      SameLabel (.call callee arguments leftParen rightParen)
        (.call otherCallee otherArguments leftParen rightParen)
  | index {base subscript otherBase otherSubscript : Expression} :
      SameLabel (.index base subscript) (.index otherBase otherSubscript)
  | selector {member : Ident} {base otherBase : Expression} :
      SameLabel (.selector base member) (.selector otherBase member)
  | paren {leftParen otherParen : Nat} {inner otherInner : Expression} :
      SameLabel (.paren leftParen inner) (.paren otherParen otherInner)

/-- A label is read back from its first word and what stands behind it. -/
theorem sameLabel_of_parts {first second : Expression} (words : first.word = second.word)
    (same : first.details = second.details) : SameLabel first second := by
  cases first <;> cases second
  case ident.ident name other =>
      rw [Ident.eq_of_label ((String.append_right_inj _).mp same)]
      exact .ident
  case literal.literal kind text pos other otherText otherPos =>
      obtain ⟨texts, rfl⟩ := eq_of_placed same
      rw [(String.append_right_inj _).mp texts]
      cases kind <;> cases other
      all_goals first
        | exact .literal
        | simp [word] at words
  case binary.binary left operator pos right _ otherOperator _ _ =>
      obtain ⟨marks, rfl⟩ := eq_of_placed same
      have inj : operator = otherOperator := by
        cases operator <;> cases otherOperator <;> simp_all [Operator.mark]
      rw [inj]
      exact .binary
  case call.call callee arguments leftParen rightParen _ _ _ _ =>
      obtain ⟨rfl, rfl⟩ := eq_of_between ((String.append_right_inj _).mp same)
      exact .call
  case index.index => exact .index
  case selector.selector base member _ _ =>
      rw [Ident.eq_of_label ((String.append_right_inj _).mp same)]
      exact .selector
  case paren.paren => exact .paren
  -- Nodes of different kinds differ in the first word.
  all_goals
    try cases ‹LiteralKind›
    all_goals simp [word] at words

theorem sameLabel_of_outline_eq {first second : Expression}
    (same : first.outline = second.outline) :
    SameLabel first second ∧ first.children.map outline = second.children.map outline := by
  rw [outline_eq, outline_eq second] at same
  obtain ⟨labels, below⟩ := Outline.node.inj same
  have noSpace : ∀ expression : Expression, ∀ c ∈ expression.word.toList, (c != ' ') = true := by
    intro expression
    cases expression with
    | literal kind text pos => cases kind <;> simp [word]
    | _ => simp [word]
  have stops : ∀ expression : Expression, ∀ c ∈ expression.details.toList.head?,
      (c != ' ') = false := by
    intro expression
    cases expression <;> simp [details]
  have lists := congrArg String.toList labels
  rw [String.toList_append, String.toList_append] at lists
  obtain ⟨words, details⟩ := eq_of_append_eq lists (noSpace first) (noSpace second)
    (stops first) (stops second)
  have label := sameLabel_of_parts (String.toList_injective words) (String.toList_injective details)
  exact ⟨label, below⟩

end Expression

/-! ## Members and contracts -/

namespace StateVariable

theorem eq_of_modifiers {first second : StateVariable}
    (same : first.modifiers = second.modifiers) :
    first.visibility = second.visibility ∧ first.isConstant = second.isConstant := by
  obtain ⟨_, visibility, isConstant, _, _⟩ := first
  obtain ⟨_, otherVisibility, otherConstant, _, _⟩ := second
  rcases visibility with _ | _ | _ | _ <;> rcases otherVisibility with _ | _ | _ | _ <;>
    cases isConstant <;> cases otherConstant <;> simp_all [modifiers, Visibility.word]

theorem head?_modifiers (declaration : StateVariable) :
    ∀ c ∈ declaration.modifiers.toList.head?, (c != ' ') = false := by
  obtain ⟨_, visibility, isConstant, _, _⟩ := declaration
  cases visibility <;> cases isConstant <;> simp [modifiers]

end StateVariable

namespace Contract

theorem eq_of_basesLabel {first second : Contract}
    (spaceless : ∀ base ∈ first.bases, base.Spaceless)
    (spacelessOther : ∀ base ∈ second.bases, base.Spaceless)
    (same : first.basesLabel = second.basesLabel) : first.bases = second.bases := by
  have lists := congrArg String.toList same
  cases bases : first.bases with
  | nil =>
      cases others : second.bases with
      | nil => rfl
      | cons other others => simp [basesLabel, bases, others] at lists
  | cons base behind =>
      cases others : second.bases with
      | nil => simp [basesLabel, bases, others] at lists
      | cons other back =>
          rw [bases] at spaceless
          rw [others] at spacelessOther
          have labels : base.label.toList ++ Ident.listed behind =
              other.label.toList ++ Ident.listed back := by
            rw [← Ident.toList_intercalate_label, ← Ident.toList_intercalate_label]
            simpa [basesLabel, bases, others] using lists
          simp only [List.mem_cons, forall_eq_or_imp] at spaceless spacelessOther
          obtain ⟨rfl, more⟩ := Ident.eq_of_label_append spaceless.1 spacelessOther.1
            (Ident.head?_listed behind) (Ident.head?_listed back) labels
          rw [Ident.eq_of_listed spaceless.2 spacelessOther.2 more]

theorem head?_basesLabel (contract : Contract) :
    ∀ c ∈ contract.basesLabel.toList.head?, c.isDigit = false := by
  rw [basesLabel]
  split <;> simp

end Contract

end ContractLens
