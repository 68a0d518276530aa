import RuleEditor.Proofs.Aggregation.Draft
import RuleEditor.Proofs.Aggregation.Reading
import RuleEditor.Proofs.Validation.Locality

/-!
# Drafts and validation

Whether an aggregation is complete is decided twice: by its draft, which looks at the parts that are
chosen, and by local validation, which looks at the slots of its node.

**Forms.** The two agree about what the form itself asks for: a row is complete exactly if the checks
of its node are silent (`FilterRow.Written.complete_iff`), and likewise for an aggregation. The slots
that a name requires are those of the parts, and a part fills its slot exactly if it is chosen.

**Values.** A draft does not look into the values that its rows compare with, and validation does. So
validation finds nothing exactly if the draft is complete and all values are
(`Aggregation.isEmpty_validateLocal_toNode_iff`). They may differ about a row that compares with
nothing: the draft is content with a placeholder there, and validation finds the errors below it.
-/

namespace RuleEditor

namespace Node

variable {node : Node} {name key : String} {parts : List (String × Option String)}

theorem complete_iff (function : node.name = .function name) :
    node.Complete ↔ node.CompleteAs name := by
  constructor
  · exact fun complete => complete name function
  · intro complete other function'
    cases function.symm.trans function'
    exact complete

/-- A part fills its slot exactly if it is chosen. -/
theorem HasParts.fills_iff (filled : node.HasParts parts) :
    ∀ entry ∈ parts, (node.Fills entry.1 ↔ entry.2.isSome = true) := by
  intro entry listed
  obtain ⟨id, slot⟩ := filled entry listed
  rw [Fills, slot]
  cases entry.2 <;> simp [part]

/-- What the checks ask of a form with a slot for each of the parts and one more. -/
theorem HasParts.completeAs_iff (filled : node.HasParts parts) (children : node.children = [])
    (unchecked : Name.arity name = .unchecked)
    (required : Name.requiredSlots name = parts.map Prod.fst ++ [key])
    (apart : Slot.value ∉ parts.map Prod.fst) :
    node.CompleteAs name ↔ (∀ entry ∈ parts, entry.2.isSome = true) ∧
      (name = Name.filter ∧ key = Slot.value ∧ node.ComparesWithNothing ∨ node.Fills key) ∧
      (name = Name.aggregation → ∀ text, node.slotString? Slot.aggregator = some text →
        ∃ aggregator : Aggregator, aggregator.name = text) := by
  constructor
  · intro complete
    have slots := complete.slots
    rw [required, List.forall_mem_append, List.forall_mem_map, List.forall_mem_singleton] at slots
    refine ⟨fun entry listed => (filled.fills_iff entry listed).1 ?_, slots.2, complete.aggregator⟩
    refine (slots.1 entry listed).resolve_left fun ⟨_, same, _⟩ => apart ?_
    exact same ▸ List.mem_map_of_mem listed
  · rintro ⟨chosen, last, aggregator⟩
    have arity (count : Nat) (fixed : Name.arity name = .fixed count) :
        node.children.length = count := nomatch unchecked.symm.trans fixed
    refine ⟨arity, ?_, ?_, aggregator⟩
    · rw [children]
      exact nofun
    · rw [required, List.forall_mem_append, List.forall_mem_map, List.forall_mem_singleton]
      exact ⟨fun entry listed => Or.inr ((filled.fills_iff entry listed).2 (chosen entry listed)),
        last⟩

end Node

/-! ## Rows -/

namespace FilterRow

variable {row : FilterRow} {node : Node}

theorem isComplete_iff : row.isComplete = true ↔
    (∀ entry ∈ row.parts, entry.2.isSome = true) ∧
      (row.needsValue = false ∨ row.value.name ≠ .undefined) := by
  rw [isComplete, Ne, ← Node.isUndefined_iff]
  simp [parts, and_assoc]

theorem Written.comparesWithNothing_iff (written : row.Written node) :
    node.ComparesWithNothing ↔ row.needsValue = false := by
  have operator : node.slotString? Slot.operator = row.operator :=
    written.hasParts.slotString?_eq (Slot.operator, row.operator) List.mem_cons_self
  rw [← Node.filterNeedsValue_eq_false_iff, Node.filterNeedsValue, operator, needsValue]

/-- **The draft and the checks agree about a row.** -/
theorem Written.complete_iff (written : row.Written node) :
    node.Complete ↔ row.isComplete = true := by
  have value : node.Fills Slot.value ↔ row.value.name ≠ .undefined := by
    simp [Node.Fills, written.slot_value]
  have apart : Slot.value ∉ [Slot.operator, Slot.tableName, Slot.fieldName] := by decide
  have other : Name.filter ≠ Name.aggregation := by decide
  rw [Node.complete_iff written.name,
    written.hasParts.completeAs_iff written.children (by decide) rfl apart, isComplete_iff,
    written.comparesWithNothing_iff, value]
  simp [other]

end FilterRow

/-! ## Aggregations -/

namespace Aggregation

variable {aggregation : Aggregation} {node : Node}

/-- **The draft and the checks agree about an aggregation**, apart from its rows. -/
theorem Written.complete_iff (written : aggregation.Written node) :
    node.Complete ↔ ∀ entry ∈ aggregation.parts, entry.2.isSome = true := by
  have aggregator : node.slotString? Slot.aggregator =
      aggregation.aggregator.map Aggregator.name :=
    written.hasParts.slotString?_eq (Slot.aggregator, _) List.mem_cons_self
  have named (text : String) (chosen : node.slotString? Slot.aggregator = some text) :
      ∃ aggregator : Aggregator, aggregator.name = text := by
    obtain ⟨known, -, same⟩ := Option.map_eq_some_iff.1 (aggregator.symm.trans chosen)
    exact ⟨known, same⟩
  obtain ⟨id, rows, slot, -⟩ := written.slot_filters
  have filters : node.Fills Slot.filters := ⟨_, slot, nofun⟩
  have apart : Slot.value ∉ [Slot.aggregator, Slot.tableName, Slot.fieldName] := by decide
  rw [Node.complete_iff written.name,
    written.hasParts.completeAs_iff written.children (by decide) rfl apart]
  exact and_iff_left ⟨Or.inr filters, fun _ => named⟩

theorem complete_list {rows : List FilterRow} {nodes : List Node}
    (written : List.Forall₂ FilterRow.Written rows nodes) (id : Nat) :
    Node.Complete ⟨id, .function Name.list, none, nodes, []⟩ := by
  have variadic : Name.arity Name.list = .variadic := by decide
  have slots : Name.requiredSlots Name.list = [] := by decide
  have other : Name.list ≠ Name.aggregation := by decide
  refine (Node.complete_iff rfl).2 ⟨fun count fixed => ?_, fun node listed => ?_, ?_,
    fun same => absurd same other⟩
  · cases variadic.symm.trans fixed
  · rw [FilterRow.name_of_mem written node listed]
    exact nofun
  · rw [slots]
    exact nofun

theorem complete_iff : aggregation.Complete ↔
    (∀ entry ∈ aggregation.parts, entry.2.isSome = true) ∧
      ∀ row ∈ aggregation.filters, row.isComplete = true := by
  simp only [parts, List.forall_mem_cons, Option.isSome_map]
  constructor
  · rintro ⟨aggregator, table, field, filters⟩
    exact ⟨⟨aggregator, table, field, List.forall_mem_nil _⟩, filters⟩
  · rintro ⟨⟨aggregator, table, field, -⟩, filters⟩
    exact ⟨aggregator, table, field, filters⟩

/-- **Validation finds nothing in the node of an aggregation** exactly if the aggregation and all
values in it are complete. -/
theorem isEmpty_validateLocal_toNode_iff (aggregation : Aggregation) (next : Nat) :
    ((aggregation.toNode next).1.validateLocal .rule none).isEmpty = true ↔
      aggregation.Complete ∧ ∀ row ∈ aggregation.filters, row.value.Everywhere Node.Complete := by
  have written := aggregation.yields_written next
  have root : (aggregation.toNode next).1.HasRootShape .rule := by
    rw [Node.HasRootShape, written.name]
    exact NodeName.noConfusion
  have part (id : Nat) (part : Option String) : (Node.part id part).Complete := by
    intro name function
    cases part <;> cases function
  rw [Node.isEmpty_validateLocal_iff, and_iff_right root,
    written.everywhere_iff part (fun id _ rows => complete_list rows id)
      fun row node form => form.complete_iff,
    written.complete_iff, complete_iff, and_assoc, ← forall₂_and]

end Aggregation

/-! ## Values -/

namespace Node

variable {node : Node}

/-- Whatever validation finds in the tree, it finds at its root. -/
def QuietBelow (root : Node) : Prop :=
  ∀ path, path ≠ Path.root → (root.validateLocal .rule none).errorsAt path = []

theorem walkFindings_eq_nil_iff : node.walkFindings none [] = [] ↔ node.Everywhere Complete := by
  rw [walkFindings, List.flatMap_eq_nil_iff, everywhere_iff_walk]
  exact forall₂_congr fun _ _ => nodeFindings_eq_nil_iff

/-- A placeholder asks for nothing itself, so what is found at other paths is found below it. -/
theorem quietBelow_iff (blank : node.name = .undefined) :
    node.QuietBelow ↔ node.Everywhere Complete := by
  rw [← walkFindings_eq_nil_iff]
  constructor
  · intro quiet
    refine List.eq_nil_iff_forall_not_mem.2 fun finding found => ?_
    have error : finding.2 ∈ (node.validateLocal .rule none).errorsAt finding.1 :=
      mem_errorsAt_validateLocal.2 (List.mem_append_right _ found)
    have own : node.nodeFindings none [] = [] := by
      rw [nodeFindings, function?, blank]
    rw [walkFindings_eq, own, List.nil_append, List.mem_flatMap] at found
    obtain ⟨entry, -, found⟩ := found
    have below : finding.1 ≠ Path.root := fun root =>
      List.cons_ne_nil _ _ (List.prefix_nil.1 (root ▸ prefix_of_mem_walkFindings found))
    rw [quiet finding.1 below] at error
    cases error
  · intro nothing path below
    have elsewhere : about path (node.rootFindings .rule) = [] :=
      about_eq_nil fun finding found same => below (same.symm.trans (of_mem_rootFindings found).1)
    rw [errorsAt_validateLocal, elsewhere, nothing]
    rfl

end Node

/-! ## Agreement -/

/-- The value of the row is a tree without errors, or a placeholder: one that has to be replaced, or
one with no errors below it. -/
inductive FilterRow.Settled (row : FilterRow) : Prop
  | valid (silent : (row.value.validateLocal .rule none).isEmpty = true)
  | asked (blank : row.value.isUndefined = true) (needed : row.needsValue = true)
  | blank (blank : row.value.isUndefined = true) (quiet : row.value.QuietBelow)

theorem FilterRow.Settled.everywhere_complete {row : FilterRow} (settled : row.Settled)
    (complete : row.isComplete = true) : row.value.Everywhere Node.Complete := by
  cases settled with
  | valid silent => exact ((Node.isEmpty_validateLocal_iff row.value .rule).1 silent).2
  | asked blank needed =>
    rcases (isComplete_iff.1 complete).2 with unary | chosen
    · cases needed.symm.trans unary
    · exact absurd (Node.isUndefined_iff.1 blank) chosen
  | blank blank quiet => exact (Node.quietBelow_iff (Node.isUndefined_iff.1 blank)).1 quiet

namespace Aggregation

/-- **Drafts and validation agree.** If the values of all rows are settled, the draft of an
aggregation can be committed exactly if validation finds nothing in the node that it is written as,
whatever is missing in it. -/
theorem exists_commit_iff_isEmpty_validateLocal (aggregation : Aggregation)
    (settled : ∀ row ∈ aggregation.filters, row.Settled) (next supply : Nat) :
    (∃ result, (Draft.ofAggregation aggregation).commit next = .ok result) ↔
      ((aggregation.toNode supply).1.validateLocal .rule none).isEmpty = true := by
  rw [Draft.exists_commit_iff, isEmpty_validateLocal_toNode_iff]
  refine iff_self_and.2 fun complete row listed => ?_
  exact (settled row listed).everywhere_complete (complete.filters row listed)

/-- Two rows, one of which compares with nothing. -/
theorem exists_commit_iff_isEmpty_validateLocal_count :
    let text (id : Nat) (value : String) : Node := ⟨id, .constant, some (.string value), [], []⟩
    let compared : FilterRow := ⟨some Name.equal, some "orders", some "state", text 0 "paid"⟩
    let unary : FilterRow :=
      ⟨some Name.isEmpty, some "orders", some "total", ⟨1, .undefined, none, [], []⟩⟩
    let count : Aggregation := ⟨some .count, some "orders", some "id", none, [compared, unary]⟩
    (∀ row ∈ count.filters, row.Settled) ∧
      (∃ result, (Draft.ofAggregation count).commit 2 = .ok result) ∧
      ((count.toNode 2).1.validateLocal .rule none).isEmpty = true := by
  intro text compared unary count
  have quiet : unary.value.QuietBelow :=
    (Node.quietBelow_iff rfl).2 (Node.everywhere_of_leaf nofun rfl rfl)
  have settled : ∀ row ∈ count.filters, row.Settled :=
    List.forall_mem_cons.2 ⟨.valid (by decide +kernel),
      List.forall_mem_singleton.2 (.blank rfl quiet)⟩
  have committed : ∃ result, (Draft.ofAggregation count).commit 2 = .ok result := ⟨_, rfl⟩
  exact ⟨settled, committed,
    (exists_commit_iff_isEmpty_validateLocal count settled 2 2).1 committed⟩

/-- A placeholder may have operands. In a row that compares with nothing, the draft is content with
it, and validation finds what is wrong with the operands. -/
theorem commit_of_placeholder_with_operands :
    let line : Node := ⟨0, .function Name.equal, none, [], []⟩
    let unary : FilterRow :=
      ⟨some Name.isEmpty, some "orders", some "total", ⟨1, .undefined, none, [line], []⟩⟩
    let count : Aggregation := ⟨some .count, some "orders", some "id", none, [unary]⟩
    (∀ row ∈ count.filters, row.value.isUndefined = true ∨
        (row.value.validateLocal .rule none).isEmpty = true) ∧
      ¬ ((∃ result, (Draft.ofAggregation count).commit 2 = .ok result) ↔
        ((count.toNode 2).1.validateLocal .rule none).isEmpty = true) := by
  intro line unary count
  refine ⟨List.forall_mem_singleton.2 (Or.inl rfl), fun agree => ?_⟩
  have found : ((count.toNode 2).1.validateLocal .rule none).isEmpty = false := by decide +kernel
  exact Bool.false_ne_true (found.symm.trans (agree.1 ⟨_, rfl⟩))

end Aggregation

end RuleEditor
