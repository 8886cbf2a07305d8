import ContractLens.Grammar.Program
import ContractLens.Proofs.Token.Symbol

/-!
# Relocated programs

Another layout of a text moves its lexemes to other offsets and changes nothing
else.  Here offsets are moved by a function, in lexemes and in every part of a
program that carries offsets.
-/

namespace ContractLens

section

variable (move : Nat → Nat)

/-! ## Moving offsets -/

/-- The lexeme at another offset. -/
def Lexeme.relocate (lexeme : Lexeme) : Lexeme :=
  { lexeme with pos := move lexeme.pos }

def Ident.relocate (ident : Ident) : Ident :=
  { ident with pos := move ident.pos }

def Expression.relocate : Expression → Expression
  | ident name => .ident (name.relocate move)
  | literal kind text pos => .literal kind text (move pos)
  | binary left operator pos right =>
      .binary left.relocate operator (move pos) right.relocate
  | call callee arguments leftParen rightParen =>
      .call callee.relocate (arguments.map relocate) (move leftParen) (move rightParen)
  | index base subscript => .index base.relocate subscript.relocate
  | selector base member => .selector base.relocate (member.relocate move)
  | paren leftParen inner => .paren (move leftParen) inner.relocate

def StateVariable.relocate (declaration : StateVariable) : StateVariable where
  type := declaration.type.relocate move
  visibility := declaration.visibility
  isConstant := declaration.isConstant
  name := declaration.name.relocate move
  value := declaration.value.relocate move

def ContractFunction.relocate (function : ContractFunction) : ContractFunction where
  name := function.name.relocate move
  visibility := function.visibility
  body := function.body.map (Expression.relocate move)

def Contract.relocate (contract : Contract) : Contract where
  name := contract.name.relocate move
  bases := contract.bases.map (Ident.relocate move)
  stateVariables := contract.stateVariables.map (StateVariable.relocate move)
  functions := contract.functions.map (ContractFunction.relocate move)

def Pragma.relocate (pragma : Pragma) : Pragma :=
  { pragma with name := pragma.name.relocate move }

/-- The program with all that carries an offset at other offsets. -/
def Program.relocate (program : Program) : Program where
  pragma? := program.pragma?.map (Pragma.relocate move)
  imports := program.imports
  contracts := program.contracts.map (Contract.relocate move)

end

variable {move : Nat → Nat}

namespace Lexeme

@[simp] theorem pos_relocate (lexeme : Lexeme) :
    (lexeme.relocate move).pos = move lexeme.pos :=
  rfl

@[simp] theorem kind_relocate (lexeme : Lexeme) : (lexeme.relocate move).kind = lexeme.kind :=
  rfl

@[simp] theorem literal_relocate (lexeme : Lexeme) :
    (lexeme.relocate move).literal = lexeme.literal :=
  rfl

@[simp] theorem symbol_relocate (lexeme : Lexeme) :
    (lexeme.relocate move).symbol = lexeme.symbol :=
  rfl

theorem ext_of_symbol {first second : Lexeme} (pos : first.pos = second.pos)
    (same : first.symbol = second.symbol) : first = second := by
  obtain ⟨kind, literal⟩ := Symbol.mk.inj same
  cases first
  cases second
  simp only [Lexeme.mk.injEq]
  exact ⟨pos, kind, literal⟩

end Lexeme

/-! ## Moving nothing -/

@[simp] theorem Lexeme.map_relocate_id (lexemes : List Lexeme) :
    lexemes.map (relocate id) = lexemes :=
  List.map_id lexemes

@[simp] theorem Ident.map_relocate_id (idents : List Ident) : idents.map (relocate id) = idents :=
  List.map_id idents

@[simp] theorem Expression.relocate_id (expression : Expression) :
    expression.relocate id = expression := by
  induction expression with
  | ident name => simp [relocate, Ident.relocate]
  | literal kind text pos => simp [relocate]
  | binary left operator pos right leftIh rightIh => simp [relocate, leftIh, rightIh]
  | call callee arguments leftParen rightParen calleeIh argumentsIh =>
      simpa [relocate, calleeIh] using List.map_congr_left argumentsIh
  | index base subscript baseIh subscriptIh => simp [relocate, baseIh, subscriptIh]
  | selector base member ih => simp [relocate, ih, Ident.relocate]
  | paren leftParen inner ih => simp [relocate, ih]

@[simp] theorem Expression.map_relocate_id (expressions : List Expression) :
    expressions.map (relocate id) = expressions :=
  List.map_id'' relocate_id expressions

/-! ## Parts of programs as they are read -/

namespace Grammar

@[simp] theorem nameOf_relocate (lexeme : Lexeme) :
    nameOf (lexeme.relocate move) = (nameOf lexeme).relocate move :=
  rfl

@[simp] theorem isWord_relocate (word : String) (lexeme : Lexeme) :
    isWord word (lexeme.relocate move) = isWord word lexeme :=
  rfl

def Header.relocate (move : Nat → Nat) (header : Header) : Header :=
  { header with name := header.name.relocate move }

@[simp] theorem Header.relocate_id (header : Header) : header.relocate id = header :=
  rfl

def Member.relocate (move : Nat → Nat) : Member → Member
  | stateVariable declaration => .stateVariable (declaration.relocate move)
  | function routine => .function (routine.relocate move)

def Item.relocate (move : Nat → Nat) : Item → Item
  | pragma directive => .pragma (directive.relocate move)
  | importing directive => .importing directive
  | contract declaration => .contract (declaration.relocate move)

theorem filterMap_map_of_commutes {Whole Part : Type} {part? : Whole → Option Part}
    {moveWhole : Whole → Whole} {movePart : Part → Part}
    (commutes : ∀ whole, part? (moveWhole whole) = (part? whole).map movePart)
    (wholes : List Whole) :
    (wholes.map moveWhole).filterMap part? = (wholes.filterMap part?).map movePart := by
  rw [List.filterMap_map, List.map_filterMap]
  congr 1
  funext whole
  exact commutes whole

theorem Member.stateVariable?_relocate (member : Member) :
    (member.relocate move).stateVariable? =
      member.stateVariable?.map (StateVariable.relocate move) := by
  cases member <;> rfl

theorem Member.function?_relocate (member : Member) :
    (member.relocate move).function? = member.function?.map (ContractFunction.relocate move) := by
  cases member <;> rfl

theorem Item.pragma?_relocate (item : Item) :
    (item.relocate move).pragma? = item.pragma?.map (Pragma.relocate move) := by
  cases item <;> rfl

theorem Item.import?_relocate (item : Item) :
    (item.relocate move).import? = item.import?.map id := by
  cases item <;> rfl

theorem Item.contract?_relocate (item : Item) :
    (item.relocate move).contract? = item.contract?.map (Contract.relocate move) := by
  cases item <;> rfl

theorem contractOf_relocate (name : Ident) (bases : List Ident) (members : List Member) :
    contractOf (name.relocate move) (bases.map (Ident.relocate move))
        (members.map (Member.relocate move)) =
      (contractOf name bases members).relocate move := by
  simp only [contractOf, Contract.relocate,
    filterMap_map_of_commutes Member.stateVariable?_relocate,
    filterMap_map_of_commutes Member.function?_relocate]

theorem programOf_relocate (items : List Item) :
    programOf (items.map (Item.relocate move)) = (programOf items).relocate move := by
  simp only [programOf, Program.relocate, filterMap_map_of_commutes Item.pragma?_relocate,
    filterMap_map_of_commutes Item.import?_relocate,
    filterMap_map_of_commutes Item.contract?_relocate, List.map_id, List.getLast?_map]

end Grammar

end ContractLens
