import RuleEditor.Proofs.Editor.Arity

/-!
# Complete trees

**Nodes.** A node that applies an operator or a function is complete (`Node.Complete`) if it has as
many operands as its name fixes, if all of them are chosen, if the slots that its name asks for are
filled, and if an aggregation names an aggregator. One slot may stay open: a filter whose operator
takes a single operand compares with no value. Literals and placeholders are complete whatever they
carry.

**Trees** (`Node.isEmpty_validateLocal_iff`). Validation without a context finds nothing exactly in
the trees whose root has a shape that its kind allows and all of whose nodes are complete. Each
check is silent exactly if one of the conditions holds, and the walk brings the checks to every
node.
-/

namespace RuleEditor

theorem Aggregator.isSome_ofName?_iff {text : String} :
    (Aggregator.ofName? text).isSome = true ↔
      ∃ aggregator : Aggregator, aggregator.name = text := by
  rw [Aggregator.ofName?, List.find?_isSome]
  refine exists_congr fun aggregator => ?_
  have listed : aggregator ∈ Aggregator.all := by cases aggregator <;> decide
  simp [listed]

namespace Node

variable {node root : Node} {path : Path} {name slot : String}

/-! ## What is asked of a tree -/

/-- The root has a shape that its kind allows: the condition of a trigger is an AND, or an OR of
ANDs, and the formula of a rule is chosen. -/
def HasRootShape (root : Node) : RootKind → Prop
  | .trigger => root.name = .function Name.and ∨
      root.name = .function Name.or ∧ ∀ branch ∈ root.children, branch.name = .function Name.and
  | .rule => root.name ≠ .undefined

/-- There is an operand in the slot, and it is chosen. -/
def Fills (node : Node) (slot : String) : Prop :=
  ∃ operand, node.slot? slot = some operand ∧ operand.name ≠ .undefined

/-- The slot for the operator holds the name of an operator with a single operand. -/
def ComparesWithNothing (filter : Node) : Prop :=
  ∃ operator ∈ Name.unary, filter.slotString? Slot.operator = some operator

/-- The node has all that an operator or a function of this name asks for. -/
structure CompleteAs (node : Node) (name : String) : Prop where
  arity : ∀ count, Name.arity name = .fixed count → node.children.length = count
  operands : ∀ operand ∈ node.children, operand.name ≠ .undefined
  slots : ∀ slot ∈ Name.requiredSlots name,
    name = Name.filter ∧ slot = Slot.value ∧ node.ComparesWithNothing ∨ node.Fills slot
  aggregator : name = Name.aggregation → ∀ text, node.slotString? Slot.aggregator = some text →
    ∃ aggregator : Aggregator, aggregator.name = text

/-- If the node is an operator or a function, it has all that its name asks for. -/
def Complete (node : Node) : Prop := ∀ name, node.name = .function name → node.CompleteAs name

/-! ## Silent checks -/

theorem applies_iff : node.applies name = true ↔ node.name = .function name := decide_eq_true_iff

theorem isUndefined_iff : node.isUndefined = true ↔ node.name = .undefined := decide_eq_true_iff

theorem function?_eq_some_iff : node.function? = some name ↔ node.name = .function name := by
  rw [function?]
  cases node.name <;> simp

theorem isTriggerRoot_layout_iff : (root.layout Path.root).isTriggerRoot = true ↔
    root.applies Name.and = true ∨ root.isOrOfAnd = true := by
  rw [layout]
  cases root.isOrOfAnd with
  | true => exact iff_of_true rfl (Or.inr rfl)
  | false =>
    cases root.applies Name.and with
    | true => exact iff_of_true rfl (Or.inl rfl)
    | false =>
      refine iff_of_false ?_ (by simp)
      simp only [Bool.and_false, Bool.false_eq_true, if_false]
      split
      · exact Bool.false_ne_true
      · split <;> exact Bool.false_ne_true

theorem rootFindings_eq_nil_iff {kind : RootKind} :
    root.rootFindings kind = [] ↔ root.HasRootShape kind := by
  cases kind with
  | trigger =>
    have shape : (root.layout Path.root).isTriggerRoot = true ↔ root.HasRootShape .trigger := by
      rw [isTriggerRoot_layout_iff, isOrOfAnd, Bool.and_eq_true, List.all_eq_true]
      simp only [applies_iff, HasRootShape]
    rw [rootFindings, ← shape]
    split <;> simp [*]
  | rule =>
    rw [rootFindings, HasRootShape, Ne, ← isUndefined_iff]
    split <;> simp [*]

theorem operandFindings_eq_nil_iff {index : Nat} {operands : List Node} :
    operandFindings path index operands = [] ↔ ∀ operand ∈ operands, operand.name ≠ .undefined := by
  induction operands generalizing index with
  | nil => exact iff_of_true rfl nofun
  | cons operand rest ih =>
    rw [operandFindings, List.append_eq_nil_iff, ih, List.forall_mem_cons, Ne, ← isUndefined_iff]
    refine and_congr_left fun _ => ?_
    split <;> simp [*]

theorem filterNeedsValue_eq_false_iff :
    node.filterNeedsValue = false ↔ node.ComparesWithNothing := by
  rw [filterNeedsValue, Bool.not_eq_false', Option.any_eq_true, ComparesWithNothing]
  refine exists_congr fun operator => ?_
  rw [Name.isUnary, List.contains_iff_mem, and_comm]

theorem slotFindings_eq_nil_iff :
    node.slotFindings path name slot = [] ↔
      name = Name.filter ∧ slot = Slot.value ∧ node.ComparesWithNothing ∨ node.Fills slot := by
  have exempt : (name = Name.filter && slot = Slot.value && !node.filterNeedsValue) = true ↔
      name = Name.filter ∧ slot = Slot.value ∧ node.ComparesWithNothing := by
    rw [← filterNeedsValue_eq_false_iff]
    simp [and_assoc]
  rw [slotFindings, ← exempt, Fills]
  split
  · next exempted => exact iff_of_true rfl (Or.inl exempted)
  · next needed =>
    rw [or_iff_right needed]
    split
    · next missing => simp [missing]
    · next operand there =>
      simp only [there, Option.some.injEq, exists_eq_left', Ne, ← isUndefined_iff]
      split <;> simp [*]

theorem aggregatorFindings_eq_nil_iff :
    node.aggregatorFindings path name = [] ↔
      (name = Name.aggregation → ∀ text, node.slotString? Slot.aggregator = some text →
        ∃ aggregator : Aggregator, aggregator.name = text) := by
  rw [aggregatorFindings]
  split
  · next aggregation =>
    split
    · next text chosen =>
      simp only [aggregation, chosen, Option.some.injEq, forall_eq', forall_const,
        ← Aggregator.isSome_ofName?_iff]
      split <;> simp [*]
    · next none => simp [none]
  · next other => simp [other]

/-- **The checks of a node are silent exactly if the node is complete.** -/
theorem nodeFindings_eq_nil_iff : node.nodeFindings none path = [] ↔ node.Complete := by
  have checks (name : String) : (node.arityFindings path name ++
      operandFindings path 0 node.children ++
      (Name.requiredSlots name).flatMap (node.slotFindings path name) ++
      node.aggregatorFindings path name ++ [] = []) ↔ node.CompleteAs name := by
    simp only [List.append_eq_nil_iff, arityFindings_eq_nil_iff, operandFindings_eq_nil_iff,
      List.flatMap_eq_nil_iff, slotFindings_eq_nil_iff, aggregatorFindings_eq_nil_iff, and_true,
      and_assoc]
    constructor
    · rintro ⟨arity, operands, slots, aggregator⟩
      exact ⟨arity, operands, slots, aggregator⟩
    · intro complete
      exact ⟨complete.arity, complete.operands, complete.slots, complete.aggregator⟩
  simp only [Complete, ← function?_eq_some_iff]
  rw [nodeFindings]
  cases node.function? with
  | none => exact iff_of_true rfl nofun
  | some name => simpa using checks name

end Node

/-! ## Silent trees -/

theorem PathErrors.errorsAt_of_isEmpty {errors : PathErrors} (empty : errors.isEmpty = true)
    (path : Path) : errors.errorsAt path = [] := by
  have none : errors.entries = [] := List.isEmpty_iff.1 empty
  rw [errorsAt, Keyed.get?, none]
  rfl

theorem PathErrors.isEmpty_addAll_iff {findings : List (Path × EvaluationError)} :
    (addAll ∅ findings).isEmpty = true ↔ findings = [] := by
  constructor
  · intro empty
    cases findings with
    | nil => rfl
    | cons finding rest =>
      have none := errorsAt_of_isEmpty empty finding.1
      rw [errorsAt_addAll] at none
      simp at none
  · rintro rfl
    rfl

/-- **Validation without a context finds nothing exactly in complete trees.** The root has a shape
that its kind allows, and each operator and function at any depth has what its name asks for. -/
theorem Node.isEmpty_validateLocal_iff (root : Node) (kind : RootKind) :
    (root.validateLocal kind none).isEmpty = true ↔
      root.HasRootShape kind ∧ root.Everywhere Complete := by
  rw [validateLocal, PathErrors.isEmpty_addAll_iff, findings, List.append_eq_nil_iff,
    List.flatMap_eq_nil_iff, rootFindings_eq_nil_iff, everywhere_iff_walk]
  exact and_congr_right fun _ => forall₂_congr fun entry _ => nodeFindings_eq_nil_iff

end RuleEditor
