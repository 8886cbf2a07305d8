import ContractLens.Proofs.Grammar.Standing
import ContractLens.Proofs.Syntax.Equality
import Mathlib.Data.List.Pairwise

/-!
# Recorded positions

The offsets that a program records are offsets of lexemes of its text, and no two
of them are equal.  Those of an expression ascend from left to right, and what is
listed in a program is listed in the order of the text: contracts, the bases and
the members of a contract, and the expressions of a body.
-/

namespace ContractLens

/-! ## Offsets from left to right -/

/-- The offsets that an expression records, from left to right. -/
def Expression.positions : Expression → List Nat
  | ident name => [name.pos]
  | literal _ _ pos => [pos]
  | binary left _ pos right => left.positions ++ pos :: right.positions
  | call callee arguments leftParen rightParen =>
      callee.positions ++ leftParen :: arguments.flatMap positions ++ [rightParen]
  | index base subscript => base.positions ++ subscript.positions
  | selector base member => base.positions ++ [member.pos]
  | paren leftParen inner => leftParen :: inner.positions

def StateVariable.positions (declaration : StateVariable) : List Nat :=
  declaration.type.pos :: declaration.name.pos :: declaration.value.positions

def ContractFunction.positions (function : ContractFunction) : List Nat :=
  function.name.pos :: function.body.flatMap Expression.positions

def Contract.positions (contract : Contract) : List Nat :=
  contract.name.pos :: contract.bases.map Ident.pos ++
    contract.stateVariables.flatMap StateVariable.positions ++
      contract.functions.flatMap ContractFunction.positions

/-- The offsets that a program records: of the name of its pragma and of its contracts. -/
def Program.positions (program : Program) : List Nat :=
  (program.pragma?.map fun pragma => pragma.name.pos).toList ++
    program.contracts.flatMap Contract.positions

def Program.recorded (program : Program) : List Lexeme :=
  (program.pragma?.map fun pragma => pragma.name.lexeme).toList ++
    program.contracts.flatMap Contract.recorded

@[simp] theorem Ident.pos_lexeme (name : Ident) : name.lexeme.pos = name.pos :=
  rfl

theorem map_pos_flatMap {Item : Type} {recorded : Item → List Lexeme} {positions : Item → List Nat}
    {items : List Item} (each : ∀ item ∈ items, (recorded item).map Lexeme.pos = positions item) :
    (items.flatMap recorded).map Lexeme.pos = items.flatMap positions := by
  rw [List.map_flatMap]
  exact List.flatMap_congr each

theorem Expression.map_pos_recorded (expression : Expression) :
    expression.recorded.map Lexeme.pos = expression.positions := by
  induction expression with
  | ident name => simp [recorded, signs, positions]
  | literal kind text pos => simp [recorded, signs, positions, Sign.lexeme?]
  | binary left operator pos right leftIh rightIh =>
      rw [recorded] at leftIh rightIh
      simp [recorded, signs, positions, leftIh, rightIh]
  | call callee arguments leftParen rightParen calleeIh argumentsIh =>
      rw [recorded] at calleeIh
      simp [recorded, signs, positions, calleeIh, Grammar.filterMap_lexeme?_flatMap,
        map_pos_flatMap argumentsIh]
  | index base subscript baseIh subscriptIh =>
      rw [recorded] at baseIh subscriptIh
      simp [recorded, signs, positions, baseIh, subscriptIh, List.filterMap_cons]
  | selector base member baseIh =>
      rw [recorded] at baseIh
      simp [recorded, signs, positions, baseIh, List.filterMap_cons]
  | paren leftParen inner innerIh =>
      rw [recorded] at innerIh
      simp [recorded, signs, positions, innerIh]

theorem StateVariable.map_pos_recorded (declaration : StateVariable) :
    declaration.recorded.map Lexeme.pos = declaration.positions := by
  simp [recorded, positions, Expression.map_pos_recorded]

theorem ContractFunction.map_pos_recorded (function : ContractFunction) :
    function.recorded.map Lexeme.pos = function.positions := by
  have body := map_pos_flatMap fun expression (_ : expression ∈ function.body) =>
    expression.map_pos_recorded
  simp [recorded, positions, body]

theorem Contract.map_pos_recorded (contract : Contract) :
    contract.recorded.map Lexeme.pos = contract.positions := by
  have values := map_pos_flatMap fun declaration
    (_ : declaration ∈ contract.stateVariables) => declaration.map_pos_recorded
  have functions := map_pos_flatMap fun function (_ : function ∈ contract.functions) =>
    function.map_pos_recorded
  simp [recorded, heading, positions, values, functions]

theorem Program.map_pos_recorded (program : Program) :
    program.recorded.map Lexeme.pos = program.positions := by
  have contracts := map_pos_flatMap fun contract (_ : contract ∈ program.contracts) =>
    contract.map_pos_recorded
  rw [recorded, positions, List.map_append, contracts]
  cases program.pragma? <;> rfl

/-! ## Order -/

/-- Every offset of the one list is in front of every offset of the other. -/
def Before (front back : List Nat) : Prop :=
  ∀ pos ∈ front, ∀ behind ∈ back, pos < behind

/-- What a contract lists is listed in the order of the text. -/
structure Contract.InOrder (contract : Contract) : Prop where
  /-- The bases follow the name of the contract. -/
  bases : (contract.name.pos :: contract.bases.map Ident.pos).Pairwise (· < ·)
  stateVariables : contract.stateVariables.Pairwise fun one next =>
    Before one.positions next.positions
  functions : contract.functions.Pairwise fun one next => Before one.positions next.positions
  bodies : ∀ function ∈ contract.functions, function.body.Pairwise fun one next =>
    Before one.positions next.positions

/-- A contract that is recorded in lexemes in the order of a text lists everything in order. -/
theorem Contract.inOrder_of_recordedIn {contract : Contract} {lexemes : List Lexeme}
    (found : contract.RecordedIn lexemes) (ordered : lexemes.Pairwise (·.pos < ·.pos)) :
    contract.InOrder := by
  have values := map_pos_flatMap fun declaration
    (_ : declaration ∈ contract.stateVariables) => declaration.map_pos_recorded
  have functions := map_pos_flatMap fun function (_ : function ∈ contract.functions) =>
    function.map_pos_recorded
  have inVariables := List.pairwise_map.mpr (ordered.sublist found.stateVariables)
  have inFunctions := List.pairwise_map.mpr (ordered.sublist found.functions)
  rw [List.map_append, values, List.pairwise_append, List.pairwise_flatMap] at inVariables
  rw [List.map_append, functions, List.pairwise_append, List.pairwise_flatMap] at inFunctions
  obtain ⟨heading, ⟨_, variablesApart⟩, _⟩ := inVariables
  obtain ⟨_, ⟨eachFunction, functionsApart⟩, _⟩ := inFunctions
  refine ⟨?_, variablesApart, functionsApart, ?_⟩
  · simpa [Contract.heading, Function.comp_def] using heading
  · intro function member
    have body := (eachFunction function member).of_cons
    exact (List.pairwise_flatMap.mp body).2

namespace Grammar

def Item.positions : Item → List Nat
  | .pragma item => [item.name.pos]
  | .importing _ => []
  | .contract item => item.positions

variable {passages : List (List Lexeme)} {items : List Item}

theorem Item.RecordedIn.exists_lexeme {passage : List Lexeme} {item : Item}
    (recorded : Item.RecordedIn passage item) {pos : Nat} (member : pos ∈ item.positions) :
    ∃ lexeme ∈ passage, lexeme.pos = pos := by
  cases recorded with
  | pragma named =>
      rw [Item.positions, List.mem_singleton] at member
      exact ⟨_, named, member.symm⟩
  | importing => cases member
  | @contract contract found =>
      obtain ⟨ordered, inside, rearranged⟩ := found.whole
      rw [Item.positions, ← contract.map_pos_recorded] at member
      obtain ⟨lexeme, isRecorded, same⟩ := List.mem_map.mp member
      exact ⟨lexeme, inside.subset (rearranged.mem_iff.mpr isRecorded), same⟩

theorem exists_passage (recorded : List.Forall₂ Item.RecordedIn passages items) {item : Item}
    (member : item ∈ items) : ∃ passage ∈ passages, Item.RecordedIn passage item := by
  induction recorded with
  | nil => cases member
  | cons first _ ih =>
      rcases List.mem_cons.mp member with rfl | member
      · exact ⟨_, .head _, first⟩
      · obtain ⟨passage, inside, found⟩ := ih member
        exact ⟨passage, .tail _ inside, found⟩

/-- Items that are read from passages one behind the other record offsets in that order. -/
theorem before_of_passages (recorded : List.Forall₂ Item.RecordedIn passages items)
    (ordered : passages.flatten.Pairwise (·.pos < ·.pos)) :
    items.Pairwise fun one next => Before one.positions next.positions := by
  induction recorded with
  | nil => exact .nil
  | @cons passage item passages items first others ih =>
      rw [List.flatten_cons, List.pairwise_append] at ordered
      obtain ⟨_, behind, apart⟩ := ordered
      refine .cons ?_ (ih behind)
      intro next member pos inFirst later inNext
      obtain ⟨other, listed, found⟩ := exists_passage others member
      obtain ⟨front, inPassage, rfl⟩ := first.exists_lexeme inFirst
      obtain ⟨back, inOther, rfl⟩ := found.exists_lexeme inNext
      exact apart front inPassage back (List.mem_flatten_of_mem listed inOther)

theorem Item.eq_of_pragma? {item : Item} {pragma : Pragma} (is : item.pragma? = some pragma) :
    item = .pragma pragma := by
  cases item with
  | pragma other => simpa [Item.pragma?] using is
  | importing _ => cases is
  | contract _ => cases is

theorem Item.eq_of_contract? {item : Item} {contract : Contract}
    (is : item.contract? = some contract) : item = .contract contract := by
  cases item with
  | pragma _ => cases is
  | importing _ => cases is
  | contract other => simpa [Item.contract?] using is

/-- A contract that is an item records everything in front of the next contract. -/
theorem before_contracts
    (apart : items.Pairwise fun one next => Before one.positions next.positions) :
    (items.filterMap Item.contract?).Pairwise fun one next =>
      Before one.positions next.positions := by
  rw [List.pairwise_filterMap]
  apply apart.imp
  intro one next before contract isContract other isOther
  rw [Item.eq_of_contract? isContract, Item.eq_of_contract? isOther] at before
  exact before

theorem pragma_mem_of_programOf {pragma : Pragma}
    (stated : (programOf items).pragma? = some pragma) : .pragma pragma ∈ items := by
  have listed := List.mem_of_getLast? stated
  obtain ⟨item, member, is⟩ := List.mem_filterMap.mp listed
  rw [← Item.eq_of_pragma? is]
  exact member

/-- The name of the pragma stands apart from everything that the contracts record. -/
theorem pragma_apart {pragma : Pragma} (stated : (programOf items).pragma? = some pragma)
    (apart : items.Pairwise fun one next => Before one.positions next.positions) :
    ∀ contract ∈ (programOf items).contracts, pragma.name.pos ∉ contract.positions := by
  intro contract listed inside
  obtain ⟨item, member, is⟩ := List.mem_filterMap.mp listed
  rw [Item.eq_of_contract? is] at member
  -- A pragma may stand behind a contract as well, so only disjointness holds both ways.
  have disjoint : items.Pairwise fun one next => one.positions.Disjoint next.positions := by
    apply apart.imp
    intro one next before pos inOne inNext
    exact Nat.lt_irrefl pos (before pos inOne pos inNext)
  have symmetric : Std.Symm fun one next : Item => one.positions.Disjoint next.positions :=
    ⟨fun _ _ => List.disjoint_symm⟩
  have separate := disjoint.forall (pragma_mem_of_programOf stated) member (by simp)
  exact separate (List.mem_singleton_self _) inside

theorem recorded_programOf_subset (recorded : List.Forall₂ Item.RecordedIn passages items) :
    (programOf items).recorded ⊆ passages.flatten := by
  intro lexeme member
  rcases List.mem_append.mp member with isPragma | inContracts
  · rw [Option.mem_toList, Option.map_eq_some_iff] at isPragma
    obtain ⟨pragma, stated, rfl⟩ := isPragma
    obtain ⟨passage, listed, found⟩ := exists_passage recorded (pragma_mem_of_programOf stated)
    cases found with
    | pragma named => exact List.mem_flatten_of_mem listed named
  · exact (contractsRecordedIn_flatten recorded).subset inContracts

theorem positions_programOf_nodup (recorded : List.Forall₂ Item.RecordedIn passages items)
    (ordered : passages.flatten.Pairwise (·.pos < ·.pos)) :
    (programOf items).positions.Nodup := by
  have contracts := (contractsRecordedIn_flatten recorded).nodup ordered
  rw [map_pos_flatMap fun contract _ => contract.map_pos_recorded] at contracts
  rw [Program.positions]
  cases stated : (programOf items).pragma? with
  | none => exact contracts
  | some pragma =>
      have apart := pragma_apart stated (before_of_passages recorded ordered)
      refine List.nodup_cons.mpr ⟨?_, contracts⟩
      intro inside
      obtain ⟨contract, listed, inside⟩ := List.mem_flatMap.mp inside
      exact apart contract listed inside

end Grammar

/-! ## Programs of a text -/

/-- The offsets of a program are those of lexemes, each recorded once, and in order. -/
structure Program.Placed (program : Program) (lexemes : List Lexeme) : Prop where
  /-- A name, literal, operator or parenthesis is a lexeme of its kind and text. -/
  faithful : ∀ lexeme ∈ program.recorded, lexeme ∈ lexemes
  /-- The offsets of these lexemes are the positions of the program. -/
  listed : program.recorded.map Lexeme.pos = program.positions
  /-- No two of them are equal. -/
  distinct : program.positions.Nodup
  /-- Within an expression, and within its parts, they ascend from its own position on. -/
  ascending : ∀ expression ∈ program.expressions, ∀ part ∈ expression.parts,
    part.positions.Pairwise (· < ·) ∧ part.positions.head? = some part.pos
  /-- An expression, and every part of it, begins with the lexeme at its position. -/
  standing : ∀ expression ∈ program.expressions, ∀ part ∈ expression.parts,
    part.StandsIn lexemes
  /-- Everything in one contract is in front of the name of the next one, and what follows. -/
  contracts : program.contracts.Pairwise fun one next => Before one.positions next.positions
  /-- What a contract lists is listed in order. -/
  members : ∀ contract ∈ program.contracts, contract.InOrder

theorem Expression.head?_positions (expression : Expression) :
    expression.positions.head? = some expression.pos := by
  obtain ⟨symbol, signs, first⟩ := expression.exists_signs_eq
  rw [← expression.map_pos_recorded, recorded, first]
  rfl

theorem Expression.StandsIn.ascending {expression : Expression} {lexemes : List Lexeme}
    (stands : expression.StandsIn lexemes) (ordered : lexemes.Pairwise (·.pos < ·.pos)) :
    expression.positions.Pairwise (· < ·) := by
  rw [← expression.map_pos_recorded]
  exact List.pairwise_map.mpr (ordered.sublist stands.recorded_sublist)

/-- Every text that is accepted states a program whose offsets are well placed in it. -/
theorem placed_of_parse {text : String} {program : Program}
    (parsed : (parse text).1 = .ok program) : program.Placed (lexemesOf text) := by
  have ordered := pairwise_pos_lexemesFrom 0 text.toList
  have stand := partsStandIn_of_parse parsed
  have found := recorded_of_parse parsed
  obtain ⟨items, reads, rfl⟩ := parse_eq_ok_iff.mp parsed
  obtain ⟨passages, inside, recorded⟩ := reads.passages faithful_of_mem_lexemesFrom
  have inPassages := ordered.sublist inside
  constructor
  · intro lexeme member
    exact inside.subset (Grammar.recorded_programOf_subset recorded member)
  · exact Program.map_pos_recorded _
  · exact Grammar.positions_programOf_nodup recorded inPassages
  · intro expression member part isPart
    have stands := stand expression member part isPart
    exact ⟨stands.ascending ordered, part.head?_positions⟩
  · exact stand
  · exact Grammar.before_contracts (Grammar.before_of_passages recorded inPassages)
  · intro contract member
    exact contract.inOrder_of_recordedIn (found.each contract member) ordered

/-- A pragma, two contracts, a value with parts of most kinds and a body of two expressions. -/
theorem placed_two_contracts : ∃ text program, text =
    "pragma s 1; contract A { t x = f(1)+(y[z]); function g() { x=2; y.w; } } contract B {}" ∧
      (parse text).1 = .ok program ∧ program.Placed (lexemesOf text) := by
  let text :=
    "pragma s 1; contract A { t x = f(1)+(y[z]); function g() { x=2; y.w; } } contract B {}"
  let value : Expression :=
    .binary (.call (.ident ⟨"f", 31⟩) [.literal .integer "1" 33] 32 34) .add 35
      (.paren 36 (.index (.ident ⟨"y", 37⟩) (.ident ⟨"z", 39⟩)))
  let function : ContractFunction :=
    ⟨⟨"g", 53⟩, .pub, [.binary (.ident ⟨"x", 59⟩) .assign 60 (.literal .integer "2" 61),
      .selector (.ident ⟨"y", 64⟩) ⟨"w", 66⟩]⟩
  let first : Contract :=
    ⟨⟨"A", 21⟩, [], [⟨⟨"t", 25⟩, none, false, ⟨"x", 27⟩, value⟩], [function]⟩
  have parsed : (parse text).1 =
      .ok ⟨some ⟨⟨"s", 7⟩, "1"⟩, [], [first, ⟨⟨"B", 82⟩, [], [], []⟩]⟩ := by
    decide +kernel
  exact ⟨text, _, rfl, parsed, placed_of_parse parsed⟩

end ContractLens
