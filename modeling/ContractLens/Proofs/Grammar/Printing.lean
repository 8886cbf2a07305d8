import ContractLens.Proofs.Grammar.Passage
import ContractLens.Proofs.Syntax.Equality
import ContractLens.Proofs.Syntax.Part
import ContractLens.Proofs.Syntax.Printed
import ContractLens.Proofs.Token.Complete

/-!
# Printed trees

The lexemes of which a contract is read are complete: there is no space and no quote in
a name, and the strings of an expression are closed, because another lexeme has to
stand behind an expression.  So all labels of a contract are legible, line feeds and
seeming nodes in its strings included, and the printed tree says which contract it is.
-/

namespace ContractLens

open Outline

/-! ## Plain texts -/

/-- Neither a space nor a quote nor a line feed stands in the text. -/
structure Text.IsPlain (text : String) : Prop where
  noSpace : ' ' ∉ text.toList
  noQuote : '"' ∉ text.toList
  noFeed : '\n' ∉ text.toList

theorem isPlain_of_isNamePart {text : String}
    (each : ∀ c ∈ text.toList, Lexeme.isNamePart c = true) : Text.IsPlain text := by
  have blank : ∀ c, Gap.isBlank c = true → c ∉ text.toList := by
    intro c isBlank inside
    obtain ⟨noStart, noDigit, _⟩ := Lexeme.begins_no_lexeme (.inl isBlank)
    have isPart := each c inside
    simp [Lexeme.isNamePart, noStart, noDigit] at isPart
  have noStart : Lexeme.isNameStart '"' = false := by decide +kernel
  refine ⟨blank _ rfl, fun inside => ?_, blank _ rfl⟩
  have isPart := each '"' inside
  simp [Lexeme.isNamePart, noStart] at isPart

namespace Lexeme.Complete

theorem isPlain_name {name : Ident} (complete : name.lexeme.Complete) :
    Text.IsPlain name.name := by
  obtain ⟨first, more, whole, start, parts⟩ := complete.formed
  apply isPlain_of_isNamePart
  intro c inside
  have inName : c ∈ first :: more := whole ▸ inside
  rcases List.mem_cons.mp inName with rfl | behind
  · simp [isNamePart, start]
  · exact parts c behind

theorem isPlain_integer {text : String} {pos : Nat}
    (complete : (⟨pos, .integer, text⟩ : Lexeme).Complete) : Text.IsPlain text := by
  apply isPlain_of_isNamePart
  intro c inside
  simp [isNamePart, complete.formed.2 c inside]

end Lexeme.Complete

/-! ## Legible labels -/

/-- Neither a quote nor a line feed stands among the characters. -/
def Text.Unquoted (cs : List Char) : Prop :=
  '"' ∉ cs ∧ '\n' ∉ cs

namespace Text

@[simp] theorem unquoted_nil : Unquoted [] := by
  simp [Unquoted]

@[simp] theorem unquoted_cons (c : Char) (cs : List Char) :
    Unquoted (c :: cs) ↔ (c ≠ '"' ∧ c ≠ '\n') ∧ Unquoted cs := by
  simp only [Unquoted, List.mem_cons, not_or]
  grind

@[simp] theorem unquoted_append (front behind : List Char) :
    Unquoted (front ++ behind) ↔ Unquoted front ∧ Unquoted behind := by
  simp only [Unquoted, List.mem_append, not_or]
  grind

@[simp] theorem unquoted_toDigits (pos : Nat) : Unquoted (Nat.toDigits 10 pos) :=
  ⟨not_mem_toDigits rfl, not_mem_toDigits rfl⟩

theorem IsPlain.unquoted {text : String} (plain : IsPlain text) : Unquoted text.toList :=
  ⟨plain.noQuote, plain.noFeed⟩

theorem Unquoted.isLine {cs : List Char} (unquoted : Unquoted cs) : IsLine false cs := by
  rw [← List.append_nil cs]
  exact isLine_append_of_plain unquoted.1 (.inr unquoted.2) rfl

/-- A quoted text without further quotes is part of a line, line feeds included. -/
theorem Unquoted.isLine_quoted {front body behind : List Char} (unquoted : Unquoted front)
    (closed : '"' ∉ body) (isLine : IsLine false behind) :
    IsLine false (front ++ '"' :: (body ++ '"' :: behind)) := by
  have inside : IsLine true ('"' :: behind) := ⟨by simp, isLine⟩
  have opened : IsLine false ('"' :: (body ++ '"' :: behind)) :=
    ⟨by simp, isLine_append_of_plain closed (.inl rfl) inside⟩
  exact isLine_append_of_plain unquoted.1 (.inr unquoted.2) opened

end Text

theorem unquoted_label {name : Ident} (plain : Text.IsPlain name.name) :
    Text.Unquoted name.label.toList := by
  simp [Ident.label, ToString.toString, plain.unquoted]

namespace Expression

theorem isLine_string {text : String} {pos : Nat}
    (complete : (⟨pos, .string, text⟩ : Lexeme).Complete) :
    Text.IsLine false ("String" ++ (" " ++ text ++ " @" ++ toString pos)).toList := by
  obtain ⟨body, noQuote, whole⟩ := complete.closed rfl
  have front : Text.Unquoted "String ".toList := by simp
  have behind : Text.Unquoted (" @" ++ toString pos).toList := by simp
  have line := front.isLine_quoted noQuote behind.isLine
  simpa [whole] using line

/-- The label of an expression whose lexemes are complete is legible. -/
theorem isLabel {expression : Expression}
    (complete : ∀ lexeme ∈ expression.recorded, lexeme.Complete) :
    IsLabel (expression.word ++ expression.details) := by
  constructor
  case line =>
      cases expression with
      | ident name =>
          have plain := (complete name.lexeme (by simp [recorded, signs])).isPlain_name
          exact Text.Unquoted.isLine (by simp [word, details, unquoted_label plain])
      | literal kind text pos =>
          have complete := complete ⟨pos, kind.kind, text⟩ (by simp [recorded, signs, Sign.lexeme?])
          cases kind with
          | string => exact isLine_string complete
          | integer =>
              have plain := complete.isPlain_integer.unquoted
              exact Text.Unquoted.isLine (by simp [word, details, plain])
      | binary left operator pos right =>
          have mark : Text.Unquoted operator.mark.toList := by
            cases operator <;> simp [Operator.mark]
          exact Text.Unquoted.isLine (by simp [word, details, mark])
      | call callee arguments leftParen rightParen =>
          exact Text.Unquoted.isLine (by simp [word, details])
      | index base subscript => exact Text.Unquoted.isLine (by simp [word, details])
      | selector base member =>
          have plain := (complete member.lexeme (by simp [recorded, signs])).isPlain_name
          exact Text.Unquoted.isLine (by simp [word, details, unquoted_label plain])
      | paren leftParen inner => exact Text.Unquoted.isLine (by simp [word, details])
  case begins =>
      cases expression with
      | literal kind text pos => cases kind <;> simp [word]
      | _ => simp [word]

theorem mem_parts_self (expression : Expression) : expression ∈ expression.parts :=
  List.mem_of_head? expression.head?_parts

theorem mem_parts_of_mem_children {expression child : Expression}
    (inside : child ∈ expression.children) : child ∈ expression.parts := by
  cases expression with
  | ident name => cases inside
  | literal kind text pos => cases inside
  | binary left operator pos right =>
      rcases List.mem_pair.mp inside with rfl | rfl
      all_goals simp [parts, mem_parts_self]
  | call callee arguments leftParen rightParen =>
      rcases List.mem_cons.mp inside with rfl | isArgument
      · simp [parts, mem_parts_self]
      · have among : child ∈ arguments.flatMap parts :=
          List.mem_flatMap.mpr ⟨child, isArgument, mem_parts_self child⟩
        simp [parts, among]
  | index base subscript =>
      rcases List.mem_pair.mp inside with rfl | rfl
      all_goals simp [parts, mem_parts_self]
  | selector base member =>
      rw [List.mem_singleton.mp inside]
      simp [parts, mem_parts_self]
  | paren leftParen inner =>
      rw [List.mem_singleton.mp inside]
      simp [parts, mem_parts_self]

theorem recorded_subset_of_mem_children {expression child : Expression}
    (inside : child ∈ expression.children) : child.recorded ⊆ expression.recorded := by
  have together := signs_infix (mem_parts_of_mem_children inside)
  exact (together.filterMap Sign.lexeme?).subset

/-- To show something of an expression, assume it of those one level below. -/
theorem induction_children {motive : Expression → Prop}
    (each : ∀ expression, (∀ child ∈ expression.children, motive child) → motive expression)
    (expression : Expression) : motive expression := by
  induction expression with
  | ident name => exact each _ (by simp [children])
  | literal kind text pos => exact each _ (by simp [children])
  | binary left operator pos right leftIh rightIh =>
      exact each _ (by simp [children, leftIh, rightIh])
  | call callee arguments leftParen rightParen calleeIh argumentsIh =>
      exact each _ (by simpa [children, calleeIh] using argumentsIh)
  | index base subscript baseIh subscriptIh =>
      exact each _ (by simp [children, baseIh, subscriptIh])
  | selector base member baseIh => exact each _ (by simp [children, baseIh])
  | paren leftParen inner innerIh => exact each _ (by simp [children, innerIh])

theorem legible (expression : Expression)
    (complete : ∀ lexeme ∈ expression.recorded, lexeme.Complete) :
    expression.outline.Legible := by
  induction expression using induction_children with
  | each expression ih =>
      rw [outline_eq]
      refine .node (isLabel complete) fun outline inside => ?_
      obtain ⟨child, isChild, rfl⟩ := List.mem_map.mp inside
      exact ih child isChild fun lexeme member =>
        complete lexeme (recorded_subset_of_mem_children isChild member)

end Expression

/-! ## Legible contracts -/

theorem StateVariable.unquoted_modifiers (declaration : StateVariable) :
    Text.Unquoted declaration.modifiers.toList := by
  obtain ⟨_, visibility, isConstant, _, _⟩ := declaration
  rcases visibility with _ | _ | _ | _ <;> cases isConstant <;> simp [modifiers, Visibility.word]

theorem StateVariable.legible {declaration : StateVariable}
    (complete : ∀ lexeme ∈ declaration.recorded, lexeme.Complete) :
    declaration.outline.Legible := by
  have type := (complete declaration.type.lexeme (by simp [recorded])).isPlain_name.unquoted
  have name := (complete declaration.name.lexeme (by simp [recorded])).isPlain_name.unquoted
  have value := declaration.value.legible fun lexeme inside =>
    complete lexeme (by simp [recorded, inside])
  refine .node ⟨Text.Unquoted.isLine ?_, ?_⟩ (by simpa using value)
  · simp [ToString.toString, type, name, declaration.unquoted_modifiers]
  · simp [ToString.toString]

theorem ContractFunction.legible {function : ContractFunction}
    (complete : ∀ lexeme ∈ function.recorded, lexeme.Complete) :
    function.outline.Legible := by
  have name := (complete function.name.lexeme (by simp [recorded])).isPlain_name.unquoted
  have word : Text.Unquoted function.visibility.word.toList := by
    cases function.visibility <;> simp [Visibility.word]
  refine .node ⟨Text.Unquoted.isLine ?_, ?_⟩ fun outline inside => ?_
  · simp [ToString.toString, name, word]
  · simp [ToString.toString]
  · obtain ⟨expression, inBody, rfl⟩ := List.mem_map.mp inside
    refine expression.legible fun lexeme member => complete lexeme ?_
    exact List.mem_cons_of_mem _ (List.mem_flatMap.mpr ⟨expression, inBody, member⟩)

namespace Contract

theorem mem_recorded {contract : Contract} {lexeme : Lexeme} :
    lexeme ∈ contract.recorded ↔ (∃ name ∈ contract.allNames, name.lexeme = lexeme) ∨
      ∃ expression ∈ contract.expressions, lexeme ∈ expression.recorded := by
  simp only [recorded, heading, allNames, expressions, StateVariable.recorded,
    ContractFunction.recorded, List.mem_append, List.mem_map, List.mem_flatMap, List.mem_cons,
    List.not_mem_nil, or_false]
  grind

variable {contract : Contract} (complete : ∀ lexeme ∈ contract.recorded, lexeme.Complete)

include complete

theorem isPlain_of_mem_allNames : ∀ name ∈ contract.allNames, Text.IsPlain name.name := by
  intro name inside
  exact (complete name.lexeme (mem_recorded.mpr (.inl ⟨name, inside, rfl⟩))).isPlain_name

theorem unquoted_basesLabel : Text.Unquoted contract.basesLabel.toList := by
  have labels : ∀ base ∈ contract.bases, Text.Unquoted base.label.toList := fun base inside =>
    unquoted_label (isPlain_of_mem_allNames complete base (by simp [allNames, inside]))
  cases bases : contract.bases with
  | nil => simp [basesLabel, bases]
  | cons first others =>
      have whole : contract.basesLabel.toList =
          " is ".toList ++ (first.label.toList ++ Ident.listed others) := by
        rw [← Ident.toList_intercalate_label]
        simp [basesLabel, bases]
      rw [bases, List.forall_mem_cons] at labels
      have behind : Text.Unquoted (Ident.listed others) := by
        constructor
        · simpa [Ident.listed] using fun name inside => (labels.2 name inside).1
        · simpa [Ident.listed] using fun name inside => (labels.2 name inside).2
      rw [whole]
      simp [labels.1, behind]

/-- The outline of a contract whose lexemes are complete is legible. -/
theorem legible : contract.outline.Legible := by
  have name := unquoted_label (isPlain_of_mem_allNames complete contract.name (by simp [allNames]))
  refine .node ⟨Text.Unquoted.isLine ?_, ?_⟩ fun outline inside => ?_
  · simp [ToString.toString, name, unquoted_basesLabel complete]
  · simp [ToString.toString]
  · rcases List.mem_append.mp inside with isVariable | isFunction
    · obtain ⟨declaration, listed, rfl⟩ := List.mem_map.mp isVariable
      refine declaration.legible fun lexeme member => complete lexeme ?_
      refine List.mem_append_left _ (List.mem_append_right _ ?_)
      exact List.mem_flatMap.mpr ⟨declaration, listed, member⟩
    · obtain ⟨routine, listed, rfl⟩ := List.mem_map.mp isFunction
      refine routine.legible fun lexeme member => complete lexeme ?_
      exact List.mem_append_right _ (List.mem_flatMap.mpr ⟨routine, listed, member⟩)

end Contract

/-! ## Contracts that are read -/

namespace Grammar

/-- What an expression records stands in front of another lexeme where it is read. -/
theorem heldWhereRead_standsBefore :
    HeldWhereRead fun lexemes expression =>
      ∀ lexeme ∈ expression.recorded, lexeme.StandsBefore lexemes where
  behind front stand lexeme inside := (stand lexeme inside).behind front
  read := by
    intro lexemes rest next expression reads faithful lexeme inside
    obtain ⟨taken, rfl, spelled⟩ := reads.spelled faithful
    rw [List.flatMap_singleton] at spelled
    exact Lexeme.standsBefore_of_mem (spelled.sublist.subset inside)

end Grammar

/-- The lexemes that a contract records are complete. -/
theorem complete_of_parse {text : String} {program : Program}
    (parsed : (parse text).1 = .ok program) {contract : Contract}
    (listed : contract ∈ program.contracts) : ∀ lexeme ∈ contract.recorded, lexeme.Complete := by
  intro lexeme member
  rcases Contract.mem_recorded.mp member with ⟨name, _, rfl⟩ | ⟨expression, inside, recorded⟩
  · have stands : name.lexeme ∈ lexemesOf text :=
      (recorded_of_parse parsed).subset (List.mem_flatMap.mpr ⟨contract, listed, member⟩)
    exact complete_of_mem_lexemesFrom stands (by simp [Ident.lexeme])
  · have stands := forall_expression_of_parse Grammar.heldWhereRead_standsBefore parsed contract
      listed expression inside
    exact (stands lexeme recorded).complete

/--
The printed tree is faithful: contracts that texts state are printed alike, on any
level, exactly if they are the same but for the offsets that are not printed.
-/
theorem Contract.render_eq_iff {firstText secondText : String}
    {firstProgram secondProgram : Program}
    (firstParsed : (parse firstText).1 = .ok firstProgram)
    (secondParsed : (parse secondText).1 = .ok secondProgram) {first second : Contract}
    (firstListed : first ∈ firstProgram.contracts) (secondListed : second ∈ secondProgram.contracts)
    (level : Nat) :
    first.render level = second.render level ↔ first.asPrinted = second.asPrinted := by
  have complete := complete_of_parse firstParsed firstListed
  have completeOther := complete_of_parse secondParsed secondListed
  constructor
  · intro same
    have outlines := (legible complete).eq_of_render (legible completeOther) same
    exact asPrinted_eq_of_outline_eq
      (fun name inside => (isPlain_of_mem_allNames complete name inside).noSpace)
      (fun name inside => (isPlain_of_mem_allNames completeOther name inside).noSpace) outlines
  · intro same
    have outlines := congrArg outline same
    rw [outline_asPrinted, outline_asPrinted] at outlines
    rw [render, render, outlines]

/--
A type and a parenthesis are moved, and a string reads like the next line of the tree:
the contracts differ and are printed alike.  With an `Int` in place of the string they
are printed differently.
-/
theorem Contract.render_moved_type :
    ∃ first second third : Contract,
      (parse "contract A \x7b int a = ( \"\n    Int 1 @23\"); \x7d").1 = .ok ⟨none, [], [first]⟩ ∧
      (parse "contract A \x7bint  a =(  \"\n    Int 1 @23\"); \x7d").1 = .ok ⟨none, [], [second]⟩ ∧
      (parse "contract A \x7b int a = ( 1); \x7d").1 = .ok ⟨none, [], [third]⟩ ∧
      first ≠ second ∧ first.render 1 = second.render 1 ∧ first.render 0 ≠ third.render 0 := by
  let string : Expression := .literal .string "\"\n    Int 1 @23\"" 23
  let first : Contract := ⟨⟨"A", 9⟩, [],
    [⟨⟨"int", 13⟩, none, false, ⟨"a", 17⟩, .paren 21 string⟩], []⟩
  let second : Contract := ⟨⟨"A", 9⟩, [],
    [⟨⟨"int", 12⟩, none, false, ⟨"a", 17⟩, .paren 20 string⟩], []⟩
  let third : Contract := ⟨⟨"A", 9⟩, [],
    [⟨⟨"int", 13⟩, none, false, ⟨"a", 17⟩, .paren 21 (.literal .integer "1" 23)⟩], []⟩
  have firstParsed : (parse "contract A \x7b int a = ( \"\n    Int 1 @23\"); \x7d").1 =
      .ok ⟨none, [], [first]⟩ := by
    decide +kernel
  have secondParsed : (parse "contract A \x7bint  a =(  \"\n    Int 1 @23\"); \x7d").1 =
      .ok ⟨none, [], [second]⟩ := by
    decide +kernel
  have thirdParsed : (parse "contract A \x7b int a = ( 1); \x7d").1 = .ok ⟨none, [], [third]⟩ := by
    decide +kernel
  have alike := render_eq_iff firstParsed secondParsed (List.mem_singleton_self _)
    (List.mem_singleton_self _) 1
  have apart := render_eq_iff firstParsed thirdParsed (List.mem_singleton_self _)
    (List.mem_singleton_self _) 0
  refine ⟨first, second, third, firstParsed, secondParsed, thirdParsed, by decide +kernel, ?_, ?_⟩
  · rw [alike]
    simp [first, second, asPrinted, StateVariable.asPrinted, Expression.asPrinted]
  · rw [Ne, apart]
    simp [first, third, string, asPrinted, StateVariable.asPrinted, Expression.asPrinted]

end ContractLens
