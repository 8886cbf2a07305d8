import ContractLens.Grammar.Member
import ContractLens.Token.Scanner

/-!
# Reading programs

A program is a list of items: pragmas, imports and contracts.  What is no item
and stands between them is passed over, and so is what is no member inside a
contract.  A contract ends at its closing brace or at the end of the input.

A text is read with one token of lookahead, so its line index covers the
lexemes that were taken and one token more.
-/

namespace ContractLens

namespace Grammar

/-! ## Contracts -/

inductive Member where
  | stateVariable (declaration : StateVariable)
  | function (routine : ContractFunction)
  deriving Repr

namespace Member

def stateVariable? : Member → Option StateVariable
  | stateVariable declaration => some declaration
  | function _ => none

def function? : Member → Option ContractFunction
  | stateVariable _ => none
  | function routine => some routine

end Member

def readBases (lexemes : List Lexeme) : Outcome (List Ident) lexemes.length :=
  (acceptName lexemes).andMaybe fun first rest shorter =>
    match rest, shorter with
    | [], _ => .stay [first] []
    | lexeme :: behind, _ =>
        if lexeme.kind = .comma then
          ((readBases behind).map (first :: ·)).relax.relax
        else
          .stay [first] (lexeme :: behind)
termination_by lexemes.length
decreasing_by
  simp only [List.length_cons] at *
  omega

def readInheritance : (lexemes : List Lexeme) → Outcome (List Ident) (lexemes.length + 1)
  | [] => .stay [] []
  | lexeme :: rest =>
      if isWord "is" lexeme then
        (readBases rest).relax.relax
      else
        .stay [] (lexeme :: rest)

/-- Read members up to and including the closing brace, or up to the end. -/
def readMembers (lexemes : List Lexeme) : Outcome (List Member) (lexemes.length + 1) :=
  match lexemes with
  | [] => .stay [] []
  | lexeme :: rest =>
      if lexeme.kind = .rightBrace then
        (Outcome.take [] lexeme rest).relax
      else if isWord "constructor" lexeme || isWord "function" lexeme then
        ((readFunction lexeme rest).andMaybe fun function middle _ =>
          (readMembers middle).map (.function function :: ·)).relax
      else if lexeme.kind = .identifier then
        ((readVariable (nameOf lexeme) rest).andMaybe fun declaration middle _ =>
          (readMembers middle).map (.stateVariable declaration :: ·)).relax.relax
      else
        (readMembers rest).relax
termination_by lexemes.length
decreasing_by
  all_goals
    try simp only [List.length_cons] at *
    omega

/-- A contract with its members sorted into state variables and functions. -/
def contractOf (name : Ident) (bases : List Ident) (members : List Member) : Contract where
  name := name
  bases := bases
  stateVariables := members.filterMap Member.stateVariable?
  functions := members.filterMap Member.function?

def readContract (lexemes : List Lexeme) : Outcome Contract lexemes.length :=
  (acceptName lexemes).andMaybe fun name afterName _ =>
    (readInheritance afterName).andThen fun bases afterBases _ =>
      (accept .leftBrace afterBases).andMaybe fun _ inside _ =>
        (readMembers inside).map (contractOf name bases)

/-! ## Programs -/

inductive Item where
  | pragma (directive : Pragma)
  | importing (directive : Import)
  | contract (declaration : Contract)
  deriving Repr

namespace Item

def pragma? : Item → Option Pragma
  | pragma directive => some directive
  | _ => none

def import? : Item → Option Import
  | importing directive => some directive
  | _ => none

def contract? : Item → Option Contract
  | contract declaration => some declaration
  | _ => none

end Item

/-- Read the lexemes of a pragma up to and including its semicolon. -/
def readPragmaValue (name : String) : (lexemes : List Lexeme) → Outcome String lexemes.length
  | [] => .refused (.unterminatedPragma name) []
  | lexeme :: rest =>
      if lexeme.kind = .semicolon then
        .take "" lexeme rest
      else
        ((readPragmaValue name rest).map (lexeme.literal ++ ·)).relax

def readPragma (lexemes : List Lexeme) : Outcome Pragma lexemes.length :=
  (acceptName lexemes).andThen fun name rest _ =>
    (readPragmaValue name.name rest).map fun value => ⟨name, value⟩

/-- Read an import behind the word that announces it: any one lexeme is its path. -/
def readImport : (lexemes : List Lexeme) → Outcome Import lexemes.length
  | [] => .refused .expectedImportPath []
  | lexeme :: rest => .take ⟨lexeme.literal⟩ lexeme rest

def readItems (lexemes : List Lexeme) : Outcome (List Item) (lexemes.length + 1) :=
  match lexemes with
  | [] => .stay [] []
  | lexeme :: rest =>
      if isWord "pragma" lexeme then
        ((readPragma rest).andMaybe fun pragma middle _ =>
          (readItems middle).map (.pragma pragma :: ·)).relax.relax
      else if isWord "import" lexeme then
        ((readImport rest).andMaybe fun item middle _ =>
          (readItems middle).map (.importing item :: ·)).relax.relax
      else if isWord "contract" lexeme then
        ((readContract rest).andMaybe fun contract middle _ =>
          (readItems middle).map (.contract contract :: ·)).relax.relax
      else
        (readItems rest).relax
termination_by lexemes.length
decreasing_by
  all_goals
    try simp only [List.length_cons] at *
    omega

/-- A program from its items; of several pragmas the last one counts. -/
def programOf (items : List Item) : Program where
  pragma? := (items.filterMap Item.pragma?).getLast?
  imports := items.filterMap Item.import?
  contracts := items.filterMap Item.contract?

def readProgram (lexemes : List Lexeme) : Outcome Program (lexemes.length + 1) :=
  (readItems lexemes).map programOf

/-- The token in front of a reader: the next lexeme, or the end of the input. -/
def lookahead (textLength : Nat) : List Lexeme → Token
  | [] => .endOfInput textLength
  | lexeme :: _ => .lexeme lexeme

end Grammar

/--
The program that a text states, or why it is refused; and the line index, which
goes on from the given one as far as the text was scanned.
-/
def parseInto (index : LineIndex) (text : String) : Except ParseError Program × LineIndex :=
  let all := lexemesOf text
  let outcome := Grammar.readProgram all
  let scans := all.length - outcome.rest.length + 1
  let found := Grammar.lookahead text.length outcome.rest
  (outcome.result.mapError fun cause => ⟨cause, found⟩,
    ((Scanner.start text index).scanMany scans).2.index)

/-- The program that a text states, or why it is refused; and the line index of the text. -/
def parse (text : String) : Except ParseError Program × LineIndex :=
  parseInto .empty text

end ContractLens
