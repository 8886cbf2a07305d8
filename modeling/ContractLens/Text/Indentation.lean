/-!
# Indentation

What is nested is written two spaces further in for every level.
-/

namespace ContractLens.Text

def spaces (count : Nat) : String :=
  String.ofList (List.replicate count ' ')

@[simp] theorem toList_spaces (count : Nat) :
    (spaces count).toList = List.replicate count ' ' :=
  String.toList_ofList

/-- The space in front of what stands on a level. -/
def indentation (level : Nat) : String :=
  spaces (2 * level)

end ContractLens.Text
