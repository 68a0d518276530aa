import RuleEditor.Proofs.Constant
import RuleEditor.Proofs.Node.Equal
import RuleEditor.Proofs.Node.Text

/-!
# Grouping on one line

A formula (`Node.Formula`) is a tree of operators over placeholders and literals without floating
point numbers. Its text shows how it is put together: formulas with the same text are equal
(`Node.equal_of_text_eq`).

**Where an operand ends.** The text of a compound operand ends at the parenthesis that was opened in
front of it, and that of a leaf ends by itself, if no digit follows. So if two formulas are told
apart by their texts up to a closing parenthesis or the end, they are told apart as operands
whatever follows (`Node.Formula.decides`). This carries the induction over the formula.

**What stands first.** No operand begins like an operator that stands in front of its operand.
After the first operand there is a space if an operator comes next, which is read up to the next
space, and a parenthesis or nothing if the formula ends there.
-/

namespace RuleEditor

/-! ## Names of operators -/

/-- Two words without spaces, each with a space behind it. -/
theorem Text.word_append_inj {word word' rest more : List Char} (plain : ' ' ∉ word)
    (plain' : ' ' ∉ word') (same : word ++ ' ' :: rest = word' ++ ' ' :: more) :
    word = word' ∧ rest = more := by
  induction word generalizing word' with
  | nil =>
    cases word' with
    | nil => exact ⟨rfl, (List.cons.inj same).2⟩
    | cons c word' => exact absurd (List.mem_cons.2 (Or.inl (List.cons.inj same).1)) plain'
  | cons c word ih =>
    cases word' with
    | nil => exact absurd (List.mem_cons.2 (Or.inl (List.cons.inj same).1.symm)) plain
    | cons d word' =>
      obtain ⟨rfl, later⟩ := List.cons.inj same
      rw [List.mem_cons, not_or] at plain plain'
      exact (ih plain.2 plain'.2 later).imp_left (congrArg _)

namespace Name

variable {name name' : String}

theorem not_isLogical_of_isBinary (binary : isBinary name = true) : isLogical name = false := by
  have apart : ∀ name ∈ Name.binary, isLogical name = false := by decide
  exact apart name (List.contains_iff_mem.1 binary)

theorem of_isUnary (unary : isUnary name = true) :
    isLogical name = false ∧ isBinary name = false := by
  have apart : ∀ name ∈ Name.unary, isLogical name = false ∧ isBinary name = false := by decide
  exact apart name (List.contains_iff_mem.1 unary)

theorem isOperator_of_isUnary (unary : isUnary name = true) : isOperator name = true := by
  simp [isOperator, unary]

theorem space_not_mem (operator : isOperator name = true) : ' ' ∉ name.toList := by
  have plain : ∀ name ∈ logical ++ binary ++ unary, ' ' ∉ name.toList := by decide
  refine plain name ?_
  simpa [isOperator, isLogical, isBinary, isUnary, or_assoc] using operator

/-- The name of an operator ends at the next space. -/
theorem append_inj {rest more : List Char} (operator : isOperator name = true)
    (operator' : isOperator name' = true)
    (same : name.toList ++ ' ' :: rest = name'.toList ++ ' ' :: more) :
    name = name' ∧ rest = more :=
  (Text.word_append_inj (space_not_mem operator) (space_not_mem operator') same).imp_left
    String.toList_inj.1

/-- The operators that stand in front begin with capital letters. -/
theorem exists_toList_of_isUnary (unary : isUnary name = true) :
    ∃ letter tail, name.toList = letter :: tail ∧ (letter = 'N' ∨ letter = 'I') := by
  have capital : ∀ name ∈ Name.unary,
      name.toList = 'N' :: name.toList.tail ∨ name.toList = 'I' :: name.toList.tail := by decide
  rcases capital name (List.contains_iff_mem.1 unary) with here | here
  · exact ⟨_, _, here, Or.inl rfl⟩
  · exact ⟨_, _, here, Or.inr rfl⟩

end Name

namespace Node

variable {node other operand first : Node} {name name' : String} {operands others : List Node}
  {rest more : List Char}

/-! ## Formulas -/

/-- A tree of operators with as many operands as they take, over placeholders and literals without
floating point numbers. -/
inductive Formula : Node → Prop
  | blank (id : Nat) : Formula ⟨id, .undefined, none, [], []⟩
  | literal (id : Nat) {value : Constant} (exact : value.Exact) :
      Formula ⟨id, .constant, some value, [], []⟩
  | connective (id : Nat) {name : String} {operands : List Node}
      (known : Name.isLogical name = true) (several : 2 ≤ operands.length)
      (all : ∀ operand ∈ operands, Formula operand) :
      Formula ⟨id, .function name, none, operands, []⟩
  | binary (id : Nat) {name : String} {left right : Node} (known : Name.isBinary name = true)
      (first : Formula left) (second : Formula right) :
      Formula ⟨id, .function name, none, [left, right], []⟩
  | unary (id : Nat) {name : String} {operand : Node} (known : Name.isUnary name = true)
      (only : Formula operand) : Formula ⟨id, .function name, none, [operand], []⟩

/-- A formula that is not an operator applied to operands. -/
inductive Leaf : Node → Prop
  | blank (id : Nat) : Leaf ⟨id, .undefined, none, [], []⟩
  | literal (id : Nat) {value : Constant} (exact : value.Exact) :
      Leaf ⟨id, .constant, some value, [], []⟩

/-- The operator stands between these operands. -/
def Between (name : String) (operands : List Node) : Prop :=
  Name.isLogical name = true ∨ Name.isBinary name = true ∧ operands.length = 2

theorem Between.isOperator (between : Between name operands) : Name.isOperator name = true := by
  rcases between with logical | ⟨binary, -⟩ <;> simp [Name.isOperator, *]

/-- A formula is a leaf, or an operator stands between its operands or in front of one. -/
inductive Shape : Node → Prop
  | leaf {node : Node} (leaf : node.Leaf) : Shape node
  | between (id : Nat) {name : String} {first second : Node} {operands : List Node}
      (between : Between name (first :: second :: operands))
      (all : ∀ operand ∈ first :: second :: operands, Formula operand) :
      Shape ⟨id, .function name, none, first :: second :: operands, []⟩
  | front (id : Nat) {name : String} {operand : Node} (unary : Name.isUnary name = true)
      (only : Formula operand) : Shape ⟨id, .function name, none, [operand], []⟩

theorem Formula.shape (formula : Formula node) : node.Shape := by
  cases formula with
  | blank id => exact .leaf (.blank id)
  | literal id exact => exact .leaf (.literal id exact)
  | @connective id name operands known several all =>
    match operands, several with
    | first :: second :: operands, _ => exact .between id (Or.inl known) all
  | binary id known first second =>
    exact .between id (Or.inr ⟨known, rfl⟩) (by simp [first, second])
  | unary id known only => exact .front id known only

theorem isCompound_of_isOperator {id : Nat} (operator : Name.isOperator name = true) :
    isCompound ⟨id, .function name, none, operands, []⟩ = true := by
  simp [isCompound, function?, operator]

theorem Leaf.isCompound (leaf : Leaf node) : node.isCompound = false := by
  cases leaf <;> rfl

theorem Formula.leaf_or_isCompound (formula : Formula node) :
    Leaf node ∨ node.isCompound = true := by
  cases formula.shape with
  | leaf leaf => exact Or.inl leaf
  | between id between all => exact Or.inr (isCompound_of_isOperator between.isOperator)
  | front id unary only =>
    exact Or.inr (isCompound_of_isOperator (Name.isOperator_of_isUnary unary))

theorem equal_of_operands (id id' : Nat) (name : String)
    (same : List.Forall₂ Equal operands others) :
    Equal ⟨id, .function name, none, operands, []⟩ ⟨id', .function name, none, others, []⟩ := by
  have all : equalAll operands others = true := by
    induction same with
    | nil => rfl
    | cons here _ ih =>
      rw [equalAll, ih, Bool.and_true]
      exact here
  simp [Equal, equal, all, Constant.equalOptional, equalNamed]

/-! ## Texts -/

/-- The node as it is written where it is an operand. -/
def written (node : Node) : List Char := (operandText node node.text).toList

theorem written_of_isCompound (compound : node.isCompound = true) :
    node.written ++ rest = '(' :: (node.text.toList ++ ')' :: rest) := by
  simp [written, operandText, compound]

theorem Leaf.written_eq (leaf : Leaf node) : node.written = node.text.toList := by
  simp [written, operandText, leaf.isCompound]

theorem toList_text_blank (id : Nat) :
    (text ⟨id, .undefined, none, [], []⟩).toList = ['_'] := by
  rw [text]
  rfl

theorem text_literal (id : Nat) (value : Constant) :
    text ⟨id, .constant, some value, [], []⟩ = value.text := by
  rw [text]
  rfl

/-- The further operands of an operator, each behind the operator, and what follows. -/
def further (name : String) (operands : List Node) (rest : List Char) : List Char :=
  Text.row ' ' (name.toList ++ [' ']) written operands ++ rest

theorem further_cons (name : String) (operand : Node) (operands : List Node) (rest : List Char) :
    further name (operand :: operands) rest =
      ' ' :: (name.toList ++ ' ' :: (operand.written ++ further name operands rest)) := by
  simp [further, Text.row]

theorem toList_text_between {id : Nat} (between : Between name (first :: operands)) :
    (text ⟨id, .function name, none, first :: operands, []⟩).toList ++ rest =
      first.written ++ further name operands rest := by
  have joined : text ⟨id, .function name, none, first :: operands, []⟩ =
      (" " ++ name ++ " ").intercalate (operandTexts (first :: operands)) := by
    rw [text]
    rcases between with logical | ⟨binary, two⟩
    · rw [if_pos logical]
      rfl
    · rw [if_neg (Bool.eq_false_iff.1 (Name.not_isLogical_of_isBinary binary)), if_pos]
      simp [binary, two]
  rw [joined, operandTexts_eq, String.toList_intercalate, List.map_cons, List.map_cons,
    Text.intercalate_cons]
  simp [further, Text.row, written, List.flatMap_map, Function.comp_def]

/-- An operator in front of its operand. -/
theorem toList_text_front {id : Nat} (unary : Name.isUnary name = true) :
    (text ⟨id, .function name, none, [operand], []⟩).toList ++ rest =
      name.toList ++ ' ' :: (operand.written ++ rest) := by
  obtain ⟨logical, binary⟩ := Name.of_isUnary unary
  rw [text]
  simp [logical, binary, unary, operandTexts, written]

/-! ## What stands first -/

/-- Leaves begin with an underscore or like a literal. -/
theorem Leaf.text_append_ne (leaf : Leaf node) {letter : Char} (blank : letter ≠ '_')
    (literal : Constant.kindOf? letter = none) : node.text.toList ++ rest ≠ letter :: more := by
  cases leaf with
  | blank id =>
    rw [toList_text_blank]
    exact fun same => blank (List.cons.inj same).1.symm
  | literal id exact =>
    rw [text_literal]
    exact Constant.text_append_ne literal exact

/-- An operand does not begin like an operator that stands in front. -/
theorem Formula.written_append_ne (formula : Formula node) (unary : Name.isUnary name = true) :
    node.written ++ rest ≠ name.toList ++ more := by
  obtain ⟨letter, tail, here, capital⟩ := Name.exists_toList_of_isUnary unary
  rw [here]
  rcases formula.leaf_or_isCompound with leaf | compound
  · rw [leaf.written_eq]
    rcases capital with rfl | rfl <;> exact leaf.text_append_ne (by decide) rfl
  · rw [written_of_isCompound compound]
    rcases capital with rfl | rfl <;> exact fun same => absurd (List.cons.inj same).1 (by decide)

/-! ## Where an operand ends -/

/-- Leaves are told apart. -/
theorem Leaf.decides (leaf : Leaf node) (leaf' : Leaf other) :
    Text.Decides (fun node => node.text.toList) Equal node other := by
  intro rest more ends ends' same
  dsimp only at same
  cases leaf with
  | blank id =>
    rw [toList_text_blank] at same
    cases leaf' with
    | blank id' =>
      rw [toList_text_blank] at same
      exact ⟨rfl, (List.cons.inj same).2⟩
    | literal id' exact =>
      rw [text_literal] at same
      exact absurd same.symm (Constant.text_append_ne rfl exact)
  | literal id exact =>
    rw [text_literal] at same
    cases leaf' with
    | blank id' =>
      rw [toList_text_blank] at same
      exact absurd same (Constant.text_append_ne rfl exact)
    | literal id' exact' =>
      rw [text_literal] at same
      obtain ⟨rfl, tails⟩ := exact.decides exact' ends ends' same
      refine ⟨?_, tails⟩
      simp [Equal, equal, Constant.equalOptional, exact.equal_self, equalAll, equalNamed]

/-- A formula ends before the text: there is a closing parenthesis, or nothing. -/
def Closes (rest : List Char) : Prop := ∀ c ∈ rest.head?, c = ')'

theorem Closes.noDigit (closes : Closes rest) : Json.NoDigit rest := by
  intro c first
  rw [closes c first]
  rfl

theorem Closes.head? (closes : Closes rest) : rest.head? ≠ some ' ' := fun space =>
  absurd (closes ' ' space) (by decide)

theorem closes_cons (rest : List Char) : Closes (')' :: rest) := by
  intro c first
  cases first
  rfl

theorem noDigit_further (name : String) (operands : List Node) (ends : Json.NoDigit rest) :
    Json.NoDigit (further name operands rest) := Text.noDigit_row rfl _ operands ends

theorem Closes.ne_further (closes : Closes rest) :
    rest ≠ further name (operand :: operands) more := by
  rw [further_cons]
  rintro rfl
  exact closes.head? rfl

/-- The text of a formula decides which formula it is, up to where it closes. -/
def Told (node : Node) : Prop :=
  ∀ ⦃other : Node⦄, Formula other → ∀ ⦃rest more : List Char⦄, Closes rest → Closes more →
    node.text.toList ++ rest = other.text.toList ++ more → node.Equal other ∧ rest = more

/-- **What is told apart up to where it closes is told apart as an operand.** -/
theorem Formula.decides (formula : Formula node) (told : node.isCompound = true → Told node)
    (formula' : Formula other) : Text.Decides written Equal node other := by
  intro rest more ends ends' same
  rcases formula.leaf_or_isCompound with leaf | compound <;>
    rcases formula'.leaf_or_isCompound with leaf' | compound'
  · rw [leaf.written_eq, leaf'.written_eq] at same
    exact leaf.decides leaf' ends ends' same
  · rw [leaf.written_eq, written_of_isCompound compound'] at same
    exact absurd same (leaf.text_append_ne (by decide) rfl)
  · rw [leaf'.written_eq, written_of_isCompound compound] at same
    exact absurd same.symm (leaf'.text_append_ne (by decide) rfl)
  · rw [written_of_isCompound compound, written_of_isCompound compound'] at same
    obtain ⟨here, tails⟩ := told compound formula' (closes_cons rest) (closes_cons more)
      (List.cons.inj same).2
    exact ⟨here, (List.cons.inj tails).2⟩

/-! ## Telling formulas apart -/

theorem Leaf.told (leaf : Leaf node) (formula : Formula node) : Told node := by
  intro other formula' rest more closes closes' same
  have decides {operand : Node} (operand' : Formula operand) :
      Text.Decides written Equal node operand :=
    formula.decides (fun compound => nomatch leaf.isCompound.symm.trans compound) operand'
  rw [← leaf.written_eq] at same
  cases formula'.shape with
  | leaf leaf' =>
    rw [← leaf'.written_eq] at same
    exact decides formula' closes.noDigit closes'.noDigit same
  | between id between all =>
    rw [toList_text_between between] at same
    obtain ⟨-, ended⟩ := decides (all _ List.mem_cons_self) closes.noDigit
      (noDigit_further _ _ closes'.noDigit) same
    exact absurd ended closes.ne_further
  | front id unary only =>
    rw [toList_text_front unary] at same
    exact absurd same (formula.written_append_ne unary)

theorem Between.told {id : Nat} {first second : Node}
    (between : Between name (first :: second :: operands))
    (all : ∀ operand ∈ first :: second :: operands, Formula operand)
    (told : ∀ operand ∈ first :: second :: operands, Told operand) :
    Told ⟨id, .function name, none, first :: second :: operands, []⟩ := by
  intro other formula rest more closes closes' same
  have decides : ∀ operand ∈ first :: second :: operands, ∀ {other}, Formula other →
      Text.Decides written Equal operand other := fun operand mem _ other' =>
    (all operand mem).decides (fun _ => told operand mem) other'
  have ends := noDigit_further name (second :: operands) closes.noDigit
  rw [toList_text_between between] at same
  cases formula.shape with
  | leaf leaf =>
    rw [← leaf.written_eq] at same
    obtain ⟨-, ended⟩ := decides first List.mem_cons_self formula ends closes'.noDigit same
    exact absurd ended.symm closes'.ne_further
  | @between id' name' first' second' others between' all' =>
    rw [toList_text_between between'] at same
    obtain ⟨here, same⟩ := decides first List.mem_cons_self (all' first' List.mem_cons_self) ends
      (noDigit_further _ _ closes'.noDigit) same
    -- The operator is the word between the first two operands, and then it is known.
    have names := same
    rw [further_cons, further_cons] at names
    obtain ⟨rfl, -⟩ :=
      Name.append_inj between.isOperator between'.isOperator (List.cons.inj names).2
    obtain ⟨later, tails⟩ := Text.Decides.row rfl _
      (fun operand mem other mem' => decides operand (List.mem_cons_of_mem _ mem)
        (all' other (List.mem_cons_of_mem _ mem')))
      closes.noDigit closes'.noDigit closes.head? closes'.head? same
    exact ⟨equal_of_operands id id' name (.cons here later), tails⟩
  | front id' unary only =>
    rw [toList_text_front unary] at same
    exact absurd same ((all first List.mem_cons_self).written_append_ne unary)

theorem told_front {id : Nat} (unary : Name.isUnary name = true) (only : Formula operand)
    (told : Told operand) : Told ⟨id, .function name, none, [operand], []⟩ := by
  intro other formula rest more closes closes' same
  rw [toList_text_front unary] at same
  cases formula.shape with
  | leaf leaf =>
    rw [← leaf.written_eq] at same
    exact absurd same.symm (formula.written_append_ne unary)
  | between id' between all =>
    rw [toList_text_between between] at same
    exact absurd same.symm ((all _ List.mem_cons_self).written_append_ne unary)
  | @front id' name' operand' unary' only' =>
    rw [toList_text_front unary'] at same
    obtain ⟨rfl, behind⟩ := Name.append_inj (Name.isOperator_of_isUnary unary)
      (Name.isOperator_of_isUnary unary') same
    obtain ⟨here, tails⟩ :=
      only.decides (fun _ => told) only' closes.noDigit closes'.noDigit behind
    exact ⟨equal_of_operands id id' name (.cons here .nil), tails⟩

theorem Formula.told (formula : Formula node) : Told node := by
  induction formula with
  | blank id => exact (Leaf.blank id).told (.blank id)
  | literal id exact => exact (Leaf.literal id exact).told (.literal id exact)
  | @connective id name operands known several all ih =>
    match operands, several with
    | first :: second :: operands, _ => exact Between.told (Or.inl known) all ih
  | @binary id name left right known first second ih ih' =>
    have all : ∀ operand ∈ [left, right], Formula operand := by simp [first, second]
    exact Between.told (Or.inr ⟨known, rfl⟩) all (by simp [ih, ih'])
  | unary id known only ih => exact told_front known only ih

/-- **Grouping can be read off the text.** Formulas that are shown as the same text are equal. -/
theorem equal_of_text_eq (formula : Formula node) (formula' : Formula other)
    (same : node.text = other.text) : node.equal other = true := by
  have ends : Closes [] := nofun
  exact (formula.told formula' ends ends (by rw [same])).1

/-- Two trees without a node in common, with a literal that looks like a connective between
parentheses and the end of a string. -/
theorem equal_of_text_eq_of_quoted_operator :
    let tree (id : Nat) : Node := ⟨id, .function Name.or, none,
      [⟨id + 1, .function Name.not, none,
          [⟨id + 2, .function Name.subtract, none,
            [⟨id + 3, .undefined, none, [], []⟩, ⟨id + 4, .constant, some (.int (-5)), [], []⟩],
            []⟩], []⟩,
        ⟨id + 5, .constant, some (.list [.string "\") AND (\"", .list [], .bool true]), [], []⟩],
      []⟩
    (tree 0).Formula ∧ (tree 6).Formula ∧
      (tree 0).text = "(Not (_ - -5)) OR [\"\\\") AND (\\\"\", [], true]" ∧
      (tree 0).text = (tree 6).text ∧ (tree 0).equal (tree 6) = true := by
  intro tree
  have formula (id : Nat) : (tree id).Formula := by
    have items : Constant.Exact (.list [.string "\") AND (\"", .list [], .bool true]) :=
      .list (by simp [Constant.Exact.string, Constant.Exact.bool, Constant.Exact.list])
    refine .connective id rfl (Nat.le_refl 2) ?_
    simp only [List.forall_mem_cons, List.not_mem_nil, false_implies, implies_true, and_true]
    exact ⟨.unary _ rfl (.binary _ rfl (.blank _) (.literal _ (.int _))), .literal _ items⟩
  have same : (tree 0).text = (tree 6).text := by decide +kernel
  exact ⟨formula 0, formula 6, by decide +kernel, same,
    equal_of_text_eq (formula 0) (formula 6) same⟩

end Node

end RuleEditor
