/-!
# Arguments

What the words of a command line ask for.  The words before a command may ask
for more logging or for the version; those behind it are the values of the
command and its options.  Options of one letter may be run together, and after
`--` every word is a value.
-/

namespace ContractLens.CommandLine

inductive Command where
  | lex (path : String)
  | parse (path : String) (json : Bool)
  | definition (path : String) (line character : Nat)
  | lsp
  | completions (shell : String)
  deriving DecidableEq, Repr

/-- What a command line asks for; a wrong one asks for nothing. -/
inductive Invocation where
  | version
  | command (request : Command)
  | misuse
  deriving DecidableEq, Repr

inductive Word where
  | value (text : String)
  | long (name : String)
  | short (letters : List Char)
  | separator
  deriving DecidableEq, Repr

/-- A word that begins with a dash is an option, unless it is the dash alone. -/
def Word.ofString (text : String) : Word :=
  match text.toList with
  | ['-', '-'] => .separator
  | '-' :: '-' :: name => .long (String.ofList name)
  | '-' :: letter :: letters => .short (letter :: letters)
  | _ => .value text

/-- The values behind a command, and how often JSON is asked for. -/
structure Given where
  values : List String
  jsonCount : Nat
  deriving DecidableEq, Repr

/-- Sort the words behind a command; an unknown option is refused. -/
def Given.ofWords? : List String → Option Given
  | [] => some ⟨[], 0⟩
  | text :: others =>
      match Word.ofString text with
      | .separator => some ⟨others, 0⟩
      | .value value =>
          (ofWords? others).map fun given => { given with values := value :: given.values }
      | .long "verbose" => ofWords? others
      | .long "json" =>
          (ofWords? others).map fun given => { given with jsonCount := given.jsonCount + 1 }
      | .long _ => none
      | .short letters => if letters.all (· == 'v') then ofWords? others else none

/-- The number that a digit adds to the digits before it. -/
def addDigit? (number : Nat) (c : Char) : Option Nat :=
  if c.isDigit then some (10 * number + (c.toNat - '0'.toNat)) else none

/-- The largest number that can be given: the largest of 64 bits. -/
def largestNumber : Nat :=
  0xFFFFFFFFFFFFFFFF

/-- The number that a word states: digits, perhaps behind a plus sign. -/
def number? (text : String) : Option Nat :=
  let digits :=
    match text.toList with
    | '+' :: digits => digits
    | digits => digits
  if digits.isEmpty then
    none
  else
    (digits.foldlM addDigit? 0).filter (· ≤ largestNumber)

/-- The path that a word states; the empty word states none. -/
def path? (text : String) : Option String :=
  if text.isEmpty then none else some text

def shells : List String :=
  ["bash", "elvish", "fish", "powershell", "zsh"]

/-- The command of a name with its values and options. -/
def Command.ofGiven? (name : String) (given : Given) : Option Command :=
  match name, given with
  | "lex", ⟨[path], 0⟩ => (path? path).map .lex
  | "parse", ⟨[path], 0⟩ => (path? path).map (.parse · false)
  | "parse", ⟨[path], 1⟩ => (path? path).map (.parse · true)
  | "definition", ⟨[path, line, character], 0⟩ => do
      some (.definition (← path? path) (← number? line) (← number? character))
  | "lsp", ⟨[], 0⟩ => some .lsp
  | "completions", ⟨[shell], 0⟩ =>
      if shells.contains shell then some (.completions shell) else none
  | _, _ => none

def Invocation.ofCommand (name : String) (words : List String) : Invocation :=
  match (Given.ofWords? words).bind (Command.ofGiven? name) with
  | some request => .command request
  | none => .misuse

/-- What options of one letter ask for; nothing if they are about logging only. -/
def Invocation.ofLetters? : List Char → Option Invocation
  | [] => none
  | 'v' :: letters => ofLetters? letters
  | 'V' :: _ => some .version
  | _ => some .misuse

/-- What a command line asks for; the first word that decides it is the one that counts. -/
def Invocation.ofWords : List String → Invocation
  | [] => .misuse
  | text :: others =>
      match Word.ofString text with
      | .separator => .misuse
      | .value name => .ofCommand name others
      | .long "verbose" => ofWords others
      | .long "version" => .version
      | .long _ => .misuse
      | .short letters =>
          match ofLetters? letters with
          | some invocation => invocation
          | none => ofWords others

end ContractLens.CommandLine
