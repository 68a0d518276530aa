import RuleEditor.Node.Basic

/-!
# Aggregations

An aggregation is a statistic over the rows of a table that pass some filters. In a rule it is a
node with named operands; `Aggregation.read` gives the typed view of such a node, and
`Aggregation.toNode` the node of a view. A part that is missing in the node, or is not a string, is
missing in the view.
-/

namespace RuleEditor

/-- A filter on the rows of an aggregation: `table.field operator value`. -/
structure FilterRow where
  operator : Option String
  table : Option String
  field : Option String
  /-- The value to compare with, a placeholder until it is chosen. -/
  value : Node

/-- A statistic over the rows of a table. -/
structure Aggregation where
  aggregator : Option Aggregator
  table : Option String
  field : Option String
  label : Option String
  filters : List FilterRow

namespace FilterRow

/-- The row that a node holds. A missing value is a new placeholder. -/
def read (node : Node) : Fresh FilterRow := do
  let value ←
    match node.slot? Slot.value with
    | some value => pure value
    | none => Node.undefined
  return ⟨node.slotString? Slot.operator, node.slotString? Slot.tableName,
    node.slotString? Slot.fieldName, value⟩

/-- Whether the row compares with a value. Unary operators take none. -/
def needsValue (row : FilterRow) : Bool := !row.operator.any Name.isUnary

def isComplete (row : FilterRow) : Bool :=
  row.operator.isSome && row.table.isSome && row.field.isSome
    && (!row.needsValue || !row.value.isUndefined)

/-- Whether two rows say the same. -/
def equal (a b : FilterRow) : Bool :=
  a.operator = b.operator && a.table = b.table && a.field = b.field && a.value.equal b.value

/-- A chosen part as a literal, a missing one as a placeholder. -/
def partNode (part : Option String) : Fresh Node :=
  match part with
  | some text => Node.string text
  | none => Node.undefined

def toNode (row : FilterRow) : Fresh Node := do
  let operator ← partNode row.operator
  let table ← partNode row.table
  let field ← partNode row.field
  Node.call Name.filter
    [(Slot.operator, operator), (Slot.tableName, table), (Slot.fieldName, field),
      (Slot.value, row.value)]

/-- Whether two lists of rows say the same. -/
def equalAll : List FilterRow → List FilterRow → Bool
  | [], [] => true
  | a :: as, b :: bs => a.equal b && equalAll as bs
  | _, _ => false

end FilterRow

namespace Aggregation

/-- Nothing chosen. -/
def empty : Aggregation := ⟨none, none, none, none, []⟩

/-- The aggregation that a node holds, if the node is one. -/
def read (node : Node) : Fresh (Option Aggregation) := do
  if !node.applies Name.aggregation then
    return none
  let rows := ((node.slot? Slot.filters).map (·.children)).getD []
  let filters ← Fresh.all (rows.map FilterRow.read)
  return some ⟨(node.slotString? Slot.aggregator).bind Aggregator.ofName?,
    node.slotString? Slot.tableName, node.slotString? Slot.fieldName,
    node.slotString? Slot.label, filters⟩

/-- Whether two aggregations say the same. -/
def equal (a b : Aggregation) : Bool :=
  a.aggregator = b.aggregator && a.table = b.table && a.field = b.field && a.label = b.label
    && FilterRow.equalAll a.filters b.filters

def toNode (aggregation : Aggregation) : Fresh Node := do
  let aggregator ← FilterRow.partNode (aggregation.aggregator.map Aggregator.name)
  let table ← FilterRow.partNode aggregation.table
  let field ← FilterRow.partNode aggregation.field
  let rows ← Fresh.all (aggregation.filters.map FilterRow.toNode)
  let filters ← Node.apply Name.list rows
  let slots := [(Slot.aggregator, aggregator), (Slot.tableName, table), (Slot.fieldName, field),
    (Slot.filters, filters)]
  match aggregation.label with
  | none => Node.call Name.aggregation slots
  | some label =>
    let label ← Node.string label
    Node.call Name.aggregation (slots ++ [(Slot.label, label)])

end Aggregation

end RuleEditor
