import ContractLens.Text.Indentation

/-!
# Outlines

An outline is a tree of labels.  It is written one label to a line, two spaces
further in for every level, and a node comes before its children.
-/

namespace ContractLens

/-- A label with the outlines below it. -/
inductive Outline where
  | node (label : String) (children : List Outline)
  deriving Repr

namespace Outline

def leaf (label : String) : Outline :=
  .node label []

/-- An outline written from the given level on. -/
def render (level : Nat) : Outline → String
  | node label children =>
      Text.indentation level ++ label ++ "\n" ++ String.join (children.map (render (level + 1)))

end Outline

end ContractLens
