import RuleEditor.Aggregation.Basic
import RuleEditor.Proofs.Node.Everywhere

/-!
# Aggregations as nodes

**Forms.** The node of an aggregation is a form with a slot for each part (`Aggregation.Written`). A
part that is chosen is a literal in its slot, and one that is not is a placeholder. Only the label
has no slot if there is none. The rows stand in a list, one form for each (`FilterRow.Written`), and
hold the nodes that they compare with. `Aggregation.toNode` fills in such a form, with identities
that the form does not care about.

**Reading back.** Nothing is lost on a form: reading it gives the aggregation, whatever is missing
in it (`Aggregation.read_toNode`). No slot is without a value, so no identity is taken on the way.

**Predicates.** What holds everywhere in a form is what holds of its own nodes and everywhere in the
values (`Aggregation.Written.everywhere_iff`).
-/

namespace RuleEditor

/-! ## Parts -/

theorem Aggregator.ofName?_name (aggregator : Aggregator) :
    Aggregator.ofName? aggregator.name = some aggregator := by
  cases aggregator <;> decide

/-- A part that is chosen as a literal, one that is not as a placeholder. -/
def Node.part (id : Nat) : Option String → Node
  | some text => ⟨id, .constant, some (.string text), [], []⟩
  | none => ⟨id, .undefined, none, [], []⟩

namespace Node

variable {P : Node → Prop}

@[simp] theorem string?_part (id : Nat) (part : Option String) :
    (Node.part id part).string? = part := by
  cases part <;> rfl

theorem everywhere_part_iff (id : Nat) (part : Option String) :
    (Node.part id part).Everywhere P ↔ P (Node.part id part) := by
  cases part <;> simp [Node.part, Everywhere, EverywhereAll, EverywhereNamed]

end Node

theorem FilterRow.yields_part (part : Option String) :
    (partNode part).Yields fun node => ∃ id, node = Node.part id part := by
  cases part with
  | none => exact fun next => ⟨next, rfl⟩
  | some text => exact fun next => ⟨next, rfl⟩

/-! ## Forms -/

/-- The form of a row. -/
inductive FilterRow.Written (row : FilterRow) : Node → Prop
  | filter (id operator table field : Nat) :
      row.Written ⟨id, .function Name.filter, none, [],
        [(Slot.operator, Node.part operator row.operator),
          (Slot.tableName, Node.part table row.table),
          (Slot.fieldName, Node.part field row.field), (Slot.value, row.value)]⟩

/-- The form of an aggregation. -/
inductive Aggregation.Written (aggregation : Aggregation) : Node → Prop
  | aggregation (id aggregator table field list label : Nat) {rows : List Node}
      (written : List.Forall₂ FilterRow.Written aggregation.filters rows) :
      aggregation.Written ⟨id, .function Name.aggregation, none, [],
        [(Slot.aggregator, Node.part aggregator (aggregation.aggregator.map Aggregator.name)),
          (Slot.tableName, Node.part table aggregation.table),
          (Slot.fieldName, Node.part field aggregation.field),
          (Slot.filters, ⟨list, .function Name.list, none, rows, []⟩)] ++
          aggregation.label.toList.map fun text => (Slot.label, Node.part label (some text))⟩

theorem FilterRow.yields_written (row : FilterRow) : row.toNode.Yields row.Written := by
  refine (yields_part _).bind fun _ ⟨operator, chosen⟩ => ?_
  refine (yields_part _).bind fun _ ⟨table, named⟩ => ?_
  refine (yields_part _).bind fun _ ⟨field, picked⟩ => ?_
  subst chosen named picked
  exact fun next => .filter next operator table field

theorem FilterRow.yields_all_written (rows : List FilterRow) :
    (Fresh.all (rows.map toNode)).Yields fun nodes => List.Forall₂ Written rows nodes := by
  induction rows with
  | nil => exact Fresh.yields_pure .nil
  | cons row rest ih =>
    refine row.yields_written.bind fun node here => ih.bind fun nodes below => ?_
    exact Fresh.yields_pure (.cons here below)

/-- **The node of an aggregation is its form**, filled in with new identities. -/
theorem Aggregation.yields_written (aggregation : Aggregation) :
    aggregation.toNode.Yields aggregation.Written := by
  refine (FilterRow.yields_part _).bind fun _ ⟨aggregator, chosen⟩ => ?_
  refine (FilterRow.yields_part _).bind fun _ ⟨table, named⟩ => ?_
  refine (FilterRow.yields_part _).bind fun _ ⟨field, picked⟩ => ?_
  refine (FilterRow.yields_all_written _).bind fun rows written => ?_
  subst chosen named picked
  have form (list label id : Nat) : aggregation.Written _ :=
    .aggregation id aggregator table field list label written
  obtain ⟨_, _, _, label, _⟩ := aggregation
  cases label with
  | none => exact fun next => form next 0 (next + 1)
  | some text => exact fun next => form next (next + 1) (next + 2)

/-! ## Slots -/

/-- The parts of a row that are chosen by name, with the keys of their slots. -/
def FilterRow.parts (row : FilterRow) : List (String × Option String) :=
  [(Slot.operator, row.operator), (Slot.tableName, row.table), (Slot.fieldName, row.field)]

/-- The parts of an aggregation that are chosen by name, with the keys of their slots. -/
def Aggregation.parts (aggregation : Aggregation) : List (String × Option String) :=
  [(Slot.aggregator, aggregation.aggregator.map Aggregator.name),
    (Slot.tableName, aggregation.table), (Slot.fieldName, aggregation.field)]

/-- The node has a slot for each of the parts. -/
def Node.HasParts (node : Node) (parts : List (String × Option String)) : Prop :=
  ∀ entry ∈ parts, ∃ id, node.slot? entry.1 = some (Node.part id entry.2)

theorem Node.HasParts.slotString?_eq {node : Node} {parts : List (String × Option String)}
    (filled : node.HasParts parts) : ∀ entry ∈ parts, node.slotString? entry.1 = entry.2 := by
  intro entry listed
  obtain ⟨id, slot⟩ := filled entry listed
  rw [slotString?, slot, Option.bind_some, string?_part]

namespace FilterRow.Written

variable {row : FilterRow} {node : Node}

theorem name (written : row.Written node) : node.name = .function Name.filter := by
  cases written
  rfl

theorem children (written : row.Written node) : node.children = [] := by
  cases written
  rfl

theorem hasParts (written : row.Written node) : node.HasParts row.parts := by
  cases written
  simp only [Node.HasParts, parts, List.forall_mem_cons]
  exact ⟨⟨_, rfl⟩, ⟨_, rfl⟩, ⟨_, rfl⟩, nofun⟩

theorem slot_value (written : row.Written node) : node.slot? Slot.value = some row.value := by
  cases written
  rfl

end FilterRow.Written

namespace Aggregation.Written

variable {aggregation : Aggregation} {node : Node}

theorem name (written : aggregation.Written node) : node.name = .function Name.aggregation := by
  cases written
  rfl

theorem children (written : aggregation.Written node) : node.children = [] := by
  cases written
  rfl

theorem hasParts (written : aggregation.Written node) : node.HasParts aggregation.parts := by
  cases written
  simp only [Node.HasParts, parts, List.forall_mem_cons]
  exact ⟨⟨_, rfl⟩, ⟨_, rfl⟩, ⟨_, rfl⟩, nofun⟩

theorem slot_filters (written : aggregation.Written node) :
    ∃ id rows, node.slot? Slot.filters = some ⟨id, .function Name.list, none, rows, []⟩ ∧
      List.Forall₂ FilterRow.Written aggregation.filters rows := by
  cases written with
  | aggregation _ _ _ _ list _ written => exact ⟨list, _, rfl, written⟩

theorem slotString?_label (written : aggregation.Written node) :
    node.slotString? Slot.label = aggregation.label := by
  cases written
  cases aggregation.label <;> rfl

end Aggregation.Written

theorem FilterRow.name_of_mem {rows : List FilterRow} {nodes : List Node}
    (written : List.Forall₂ Written rows nodes) :
    ∀ node ∈ nodes, node.name = .function Name.filter := by
  induction written with
  | nil => exact nofun
  | cons here _ ih => exact List.forall_mem_cons.2 ⟨here.name, ih⟩

/-! ## Reading back -/

theorem Fresh.all_map_eq_pure {α β : Type} {action : α → Fresh β} {sources : List α}
    {values : List β}
    (gives : List.Forall₂ (fun value source => action source = pure value) values sources) :
    Fresh.all (sources.map action) = pure values := by
  induction gives with
  | nil => rfl
  | cons here _ ih =>
    rw [List.map_cons, Fresh.all, here, ih]
    rfl

theorem FilterRow.read_of_written {row : FilterRow} {node : Node} (written : row.Written node) :
    read node = pure row := by
  have filled := written.hasParts.slotString?_eq
  simp only [parts, List.forall_mem_cons] at filled
  obtain ⟨operator, table, field, -⟩ := filled
  rw [read, written.slot_value, operator, table, field]
  rfl

theorem Aggregation.read_of_written {aggregation : Aggregation} {node : Node}
    (written : aggregation.Written node) : read node = pure (some aggregation) := by
  have applies : node.applies Name.aggregation = true := decide_eq_true written.name
  have named : (aggregation.aggregator.map Aggregator.name).bind Aggregator.ofName? =
      aggregation.aggregator := by
    cases aggregation.aggregator with
    | none => rfl
    | some aggregator => exact aggregator.ofName?_name
  have filled := written.hasParts.slotString?_eq
  simp only [parts, List.forall_mem_cons] at filled
  obtain ⟨aggregator, table, field, -⟩ := filled
  obtain ⟨list, nodes, slot, rows⟩ := written.slot_filters
  have reads : Fresh.all (nodes.map FilterRow.read) = pure aggregation.filters :=
    Fresh.all_map_eq_pure (rows.imp fun _ _ => FilterRow.read_of_written)
  rw [read, applies, slot, aggregator, named, table, field, written.slotString?_label]
  show (Fresh.all (nodes.map FilterRow.read) >>= _) = _
  rw [reads]
  rfl

/-- **An aggregation is read back from its node**, with the values of its filters as they are. -/
theorem Aggregation.read_toNode (aggregation : Aggregation) (next : Nat) :
    read (aggregation.toNode next).1 = pure (some aggregation) :=
  read_of_written (aggregation.yields_written next)

/-! ## Predicates -/

section Everywhere

variable {P : Node → Prop} {Q : FilterRow → Prop} {node : Node}

theorem FilterRow.Written.everywhere_iff {row : FilterRow} (written : row.Written node)
    (part : ∀ id part, P (Node.part id part)) :
    node.Everywhere P ↔ P node ∧ row.value.Everywhere P := by
  rw [Node.everywhere_iff]
  cases written
  simp only [List.forall_mem_cons, Node.everywhere_part_iff, part, List.not_mem_nil]
  simp

theorem FilterRow.forall_everywhere_iff {rows : List FilterRow} {nodes : List Node}
    (written : List.Forall₂ Written rows nodes) (part : ∀ id part, P (Node.part id part))
    (form : ∀ row node, Written row node → (P node ↔ Q row)) :
    (∀ node ∈ nodes, node.Everywhere P) ↔ ∀ row ∈ rows, Q row ∧ row.value.Everywhere P := by
  induction written with
  | nil => exact iff_of_true nofun nofun
  | cons here _ ih =>
    rw [List.forall_mem_cons, List.forall_mem_cons, ih, here.everywhere_iff part, form _ _ here]

/-- **A predicate holds everywhere in the form of an aggregation** if it holds of the form itself, of
the form of each row, and everywhere in the values. Parts and the list are taken to satisfy it. -/
theorem Aggregation.Written.everywhere_iff {aggregation : Aggregation}
    (written : aggregation.Written node) (part : ∀ id part, P (Node.part id part))
    (list : ∀ id nodes, List.Forall₂ FilterRow.Written aggregation.filters nodes →
      P ⟨id, .function Name.list, none, nodes, []⟩)
    (form : ∀ row node, FilterRow.Written row node → (P node ↔ Q row)) :
    node.Everywhere P ↔
      P node ∧ ∀ row ∈ aggregation.filters, Q row ∧ row.value.Everywhere P := by
  rw [Node.everywhere_iff]
  cases written with
  | @aggregation _ _ _ _ id _ nodes written =>
    have rows : Node.Everywhere P ⟨id, .function Name.list, none, nodes, []⟩ ↔
        ∀ row ∈ aggregation.filters, Q row ∧ row.value.Everywhere P := by
      rw [Node.everywhere_iff, and_iff_right (list id nodes written),
        ← FilterRow.forall_everywhere_iff written part form]
      exact and_iff_left nofun
    simp only [List.forall_mem_append, List.forall_mem_cons, List.forall_mem_map,
      Node.everywhere_part_iff, part, rows]
    simp

end Everywhere

end RuleEditor
