import ContractLens.Text.Indentation

/-!
# JSON values

JSON values whose objects keep the order of their fields, and their text over
several lines: two spaces for every level, one element or field to a line, and
nothing between the brackets of an empty array or object.
-/

namespace ContractLens

/-- A JSON value; the numbers that occur are natural. -/
inductive Json where
  | null
  | bool (value : Bool)
  | number (value : Nat)
  | string (value : String)
  | array (elements : List Json)
  | object (fields : List (String × Json))
  deriving Repr

namespace Json

/-- The digits of a character below U+0100, two of them. -/
def hexPair (c : Char) : String :=
  String.ofList [Nat.digitChar (c.toNat / 16), Nat.digitChar (c.toNat % 16)]

/-- A character inside quotes: quotes, backslashes and control characters are escaped. -/
def escape (c : Char) : String :=
  match c with
  | '"' => "\\\""
  | '\\' => "\\\\"
  | '\x08' => "\\b"
  | '\t' => "\\t"
  | '\n' => "\\n"
  | '\x0c' => "\\f"
  | '\r' => "\\r"
  | c => if c.toNat < 0x20 then "\\u00" ++ hexPair c else String.singleton c

def quote (text : String) : String :=
  "\"" ++ String.join (text.toList.map escape) ++ "\""

/-- Items between brackets on the given level, one to a line. -/
def bracket (level : Nat) (opening closing : String) : List String → String
  | [] => opening ++ closing
  | items =>
      opening ++ "\n" ++
        ",\n".intercalate (items.map fun item => Text.indentation (level + 1) ++ item) ++
        "\n" ++ Text.indentation level ++ closing

/-- The text of a value that stands on the given level. -/
def render (level : Nat) : Json → String
  | null => "null"
  | bool value => if value then "true" else "false"
  | number value => toString value
  | string value => quote value
  | array elements => bracket level "[" "]" (elements.map (render (level + 1)))
  | object fields =>
      bracket level "\x7b" "\x7d"
        (fields.map fun field => quote field.1 ++ ": " ++ field.2.render (level + 1))
termination_by json => sizeOf json
decreasing_by
  · rename_i element inside
    have smaller := List.sizeOf_lt_of_mem inside
    simp only [array.sizeOf_spec]
    omega
  · rename_i inside
    have smaller := List.sizeOf_lt_of_mem inside
    have part : sizeOf field = 1 + sizeOf field.1 + sizeOf field.2 := rfl
    simp only [object.sizeOf_spec]
    omega

end Json

end ContractLens
