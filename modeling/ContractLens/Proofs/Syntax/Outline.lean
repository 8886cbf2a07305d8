import ContractLens.Syntax.Outline
import Mathlib.Data.List.TakeWhile

/-!
# Outlines from their texts

An outline can be told from its text.  Line feeds within a label stand in quotes, so
the text falls into labels in one way only; and the space in front of a label says how
far down it stands, so the labels fall into a tree in one way only.
-/

namespace ContractLens

/-- Two lists that agree have the same items up to the first one that does not hold. -/
theorem eq_of_append_eq {α : Type} {holds : α → Bool} {front other behind back : List α}
    (same : front ++ behind = other ++ back)
    (each : ∀ item ∈ front, holds item = true) (eachOther : ∀ item ∈ other, holds item = true)
    (stops : ∀ item ∈ behind.head?, holds item = false)
    (stopsOther : ∀ item ∈ back.head?, holds item = false) :
    front = other ∧ behind = back := by
  have stopped : ∀ items : List α, (∀ item ∈ items.head?, holds item = false) →
      items.takeWhile holds = [] := by
    intro items stops
    cases items with
    | nil => rfl
    | cons item items => exact List.takeWhile_cons_of_neg (by simp [stops item rfl])
  have fronts := congrArg (List.takeWhile holds) same
  rw [List.takeWhile_append_of_pos each, List.takeWhile_append_of_pos eachOther,
    stopped behind stops, stopped back stopsOther, List.append_nil, List.append_nil] at fronts
  subst fronts
  exact ⟨rfl, List.append_cancel_left same⟩

namespace Text

/-! ## Lines -/

/-- Line feeds stand within quotes only, and every quote is closed. -/
def IsLine (quoted : Bool) : List Char → Prop
  | [] => quoted = false
  | c :: cs => (c = '\n' → quoted = true) ∧ IsLine (quoted ^^ (c == '"')) cs

/-- A line ends at the first line feed that does not belong to it. -/
theorem eq_of_isLine {quoted : Bool} {line other behind back : List Char}
    (isLine : IsLine quoted line) (isLineOther : IsLine quoted other)
    (same : line ++ '\n' :: behind = other ++ '\n' :: back) : line = other ∧ behind = back := by
  induction line generalizing quoted other with
  | nil =>
      cases other with
      | nil => exact ⟨rfl, (List.cons.inj same).2⟩
      | cons c cs =>
          have isQuoted := isLineOther.1 (List.cons.inj same).1.symm
          exact absurd (isQuoted.symm.trans isLine) Bool.noConfusion
  | cons c cs ih =>
      cases other with
      | nil =>
          have isQuoted := isLine.1 (List.cons.inj same).1
          exact absurd (isQuoted.symm.trans isLineOther) Bool.noConfusion
      | cons d ds =>
          obtain ⟨rfl, goesOn⟩ := List.cons.inj same
          obtain ⟨rfl, rfl⟩ := ih isLine.2 isLineOther.2 goesOn
          exact ⟨rfl, rfl⟩

theorem isLine_append_of_plain {plain behind : List Char} {quoted : Bool}
    (noQuote : '"' ∉ plain) (noFeed : quoted = true ∨ '\n' ∉ plain)
    (isLine : IsLine quoted behind) :
    IsLine quoted (plain ++ behind) := by
  induction plain with
  | nil => exact isLine
  | cons c cs ih =>
      simp only [List.mem_cons, not_or] at noQuote noFeed
      have goesOn := ih noQuote.2 (noFeed.imp_right And.right)
      have noneHere : (quoted ^^ (c == '"')) = quoted := by
        simp [beq_eq_false_iff_ne.mpr (Ne.symm noQuote.1)]
      refine ⟨fun feed => ?_, ?_⟩
      · exact noFeed.resolve_right fun apart => apart.1 feed.symm
      · rw [noneHere]
        exact goesOn

def margin (cs : List Char) : Nat :=
  (cs.takeWhile (· == ' ')).length

end Text

open Text

namespace Outline

/-- A label that is one line and is not indented itself. -/
structure IsLabel (label : String) : Prop where
  line : IsLine false label.toList
  begins : label.toList.head? ≠ some ' '

/-- All labels can be told from what stands around them. -/
inductive Legible : Outline → Prop where
  | node {label : String} {children : List Outline} :
      IsLabel label →
        (∀ child ∈ children, child.Legible) →
        Legible (.node label children)

/-- Outlines written from the given level on, one behind the other. -/
def renderAll (level : Nat) (outlines : List Outline) : List Char :=
  outlines.flatMap fun outline => (outline.render level).toList

theorem toList_render (level : Nat) (label : String) (children : List Outline) :
    ((node label children).render level).toList =
      List.replicate (2 * level) ' ' ++
        (label.toList ++ '\n' :: renderAll (level + 1) children) := by
  simp [render, indentation, renderAll, List.flatMap_map]

theorem renderAll_cons (level : Nat) (first : Outline) (others : List Outline) :
    renderAll level (first :: others) =
      (first.render level).toList ++ renderAll level others :=
  List.flatMap_cons

theorem Legible.margin_render {outline : Outline} (legible : outline.Legible) (level : Nat)
    (behind : List Char) :
    margin ((outline.render level).toList ++ behind) = 2 * level := by
  cases legible with
  | @node label children isLabel _ =>
      have stops : ∀ rest, (label.toList ++ '\n' :: rest).takeWhile (· == ' ') = [] := by
        intro rest
        cases begins : label.toList with
        | nil => rfl
        | cons c cs =>
            have noSpace := isLabel.begins
            rw [begins] at noSpace
            exact List.takeWhile_cons_of_neg (by simpa using noSpace)
      rw [toList_render, List.append_assoc, List.append_assoc, List.cons_append, margin,
        List.takeWhile_append_of_pos (by simp), stops]
      simp

/-- Whatever stands behind it, the outline is known by its text on the level. -/
def ToldApart (level : Nat) (outline : Outline) : Prop :=
  ∀ {other : Outline} {behind back : List Char}, other.Legible →
    margin behind < 2 * (level + 1) → margin back < 2 * (level + 1) →
    (outline.render level).toList ++ behind = (other.render level).toList ++ back →
    outline = other ∧ behind = back

/-- Where less space stands behind outlines of a level, no line in front is one level deeper. -/
theorem margin_renderAll_lt {level : Nat} {outlines : List Outline} {behind : List Char}
    (legible : ∀ outline ∈ outlines, outline.Legible) (apart : margin behind < 2 * level) :
    margin (renderAll level outlines ++ behind) < 2 * (level + 1) := by
  cases outlines with
  | nil => exact Nat.lt_trans apart (by omega)
  | cons first outlines =>
      rw [renderAll_cons, List.append_assoc, (legible first (by simp)).margin_render]
      omega

/-- Outlines on one level end where less space stands in front of a line. -/
theorem eq_of_renderAll {level : Nat} {outlines others : List Outline} {behind back : List Char}
    (each : ∀ outline ∈ outlines, outline.ToldApart level)
    (legible : ∀ outline ∈ outlines, outline.Legible)
    (legibleOther : ∀ other ∈ others, other.Legible)
    (apart : margin behind < 2 * level) (apartOther : margin back < 2 * level)
    (same : renderAll level outlines ++ behind = renderAll level others ++ back) :
    outlines = others ∧ behind = back := by
  induction outlines generalizing others with
  | nil =>
      cases others with
      | nil => exact ⟨rfl, same⟩
      | cons first others =>
          have deep := (legibleOther first (by simp)).margin_render level
            (renderAll level others ++ back)
          rw [← List.append_assoc, ← renderAll_cons, ← same] at deep
          exact absurd deep (Nat.ne_of_lt apart)
  | cons first outlines ih =>
      cases others with
      | nil =>
          have deep := (legible first (by simp)).margin_render level
            (renderAll level outlines ++ behind)
          rw [← List.append_assoc, ← renderAll_cons, same] at deep
          exact absurd deep (Nat.ne_of_lt apartOther)
      | cons other others =>
          simp only [List.mem_cons, forall_eq_or_imp] at each legible legibleOther
          rw [renderAll_cons, renderAll_cons, List.append_assoc, List.append_assoc] at same
          obtain ⟨rfl, goesOn⟩ := each.1 legibleOther.1 (margin_renderAll_lt legible.2 apart)
            (margin_renderAll_lt legibleOther.2 apartOther) same
          obtain ⟨rfl, rfl⟩ := ih each.2 legible.2 legibleOther.2 goesOn
          exact ⟨rfl, rfl⟩

/-- An outline is known by its text, even if something less indented stands behind. -/
theorem Legible.toldApart {outline : Outline} (legible : outline.Legible) (level : Nat) :
    outline.ToldApart level := by
  induction legible generalizing level with
  | @node label children isLabel legible ih =>
      intro other behind back legibleOther apart apartOther same
      cases legibleOther with
      | @node otherLabel others isLabelOther legibleOther =>
          simp only [toList_render, List.append_assoc, List.append_cancel_left_eq,
            List.cons_append] at same
          obtain ⟨sameLabel, below⟩ := eq_of_isLine isLabel.line isLabelOther.line same
          obtain ⟨rfl, rfl⟩ := eq_of_renderAll (fun child inside => ih child inside (level + 1))
            legible legibleOther apart apartOther below
          rw [String.toList_inj.mp sameLabel]
          exact ⟨rfl, rfl⟩

theorem Legible.eq_of_render {outline other : Outline} (legible : outline.Legible)
    (legibleOther : other.Legible) {level : Nat}
    (same : outline.render level = other.render level) :
    outline = other := by
  have empty : margin [] < 2 * (level + 1) := Nat.succ_pos _
  exact (legible.toldApart level legibleOther empty empty (by rw [same])).1

end Outline

end ContractLens
