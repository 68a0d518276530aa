import RuleEditor.Node.Basic

/-!
# Rules on one line

`Node.text` is the rule as a reader sees it, on a single line. Connectives and binary operators
stand between their operands and unary ones in front; compound operands are put in parentheses, so
that grouping survives. Accessors and aggregations have spellings of their own, and everything else
is written as a call.
-/

namespace RuleEditor.Node

/-- The text of an operand, given the text of its node. -/
def operandText (node : Node) (text : String) : String :=
  if node.isCompound then "(" ++ text ++ ")" else text

/-- The spelling of a node that reads a field or a list, if its operands are strings. -/
def accessorText? (node : Node) : Option String :=
  if node.applies Name.payload then
    (node.child? 0).bind string? |>.map ("Payload." ++ ·)
  else if node.applies Name.databaseAccess then do
    let table ← node.slotString? Slot.tableName
    let field ← node.slotString? Slot.fieldName
    return ".".intercalate (table :: node.links ++ [field])
  else if node.applies Name.customListAccess then
    (node.slotString? Slot.customListId).map fun id => "CustomList(" ++ id ++ ")"
  else none

/-- A missing part of an aggregation is shown as a placeholder. -/
def orBlank (part : Option String) : String := part.getD "_"

/-- The text of a filter row, given the text of its value. Unary operators take no value. -/
def filterText (row : Node) (value : String) : String :=
  let operator := row.slotString? Slot.operator
  orBlank (row.slotString? Slot.tableName) ++ "." ++ orBlank (row.slotString? Slot.fieldName)
    ++ " " ++ orBlank operator
    ++ if operator.any Name.isUnary then "" else " " ++ value

/-- The text of an aggregation, given the texts of its filter rows. -/
def aggregationText (node : Node) (filters : List String) : String :=
  let aggregator := (node.slotString? Slot.aggregator).bind Aggregator.ofName?
  orBlank (aggregator.map Aggregator.name) ++ "(" ++ orBlank (node.slotString? Slot.tableName)
    ++ "." ++ orBlank (node.slotString? Slot.fieldName)
    ++ (if filters.isEmpty then "" else " where " ++ ", ".intercalate filters) ++ ")"

mutual

/-- The rule on one line. -/
def text : Node → String
  | ⟨_, .undefined, _, _, _⟩ => "_"
  | ⟨_, .constant, constant, _, _⟩ => (constant.map Constant.text).getD "null"
  | ⟨id, .function name, constant, children, named⟩ =>
    let node : Node := ⟨id, .function name, constant, children, named⟩
    if Name.isLogical name then
      if children.isEmpty then name ++ "()"
      else (" " ++ name ++ " ").intercalate (operandTexts children)
    else if Name.isBinary name && children.length = 2 then
      (" " ++ name ++ " ").intercalate (operandTexts children)
    else if Name.isUnary name && children.length = 1 then
      name ++ " " ++ String.join (operandTexts children)
    else
      match node.accessorText? with
      | some accessor => accessor
      | none =>
        if name = Name.aggregation then node.aggregationText (filterTexts named)
        else name ++ "(" ++ ", ".intercalate (texts children ++ namedTexts named) ++ ")"

def texts : List Node → List String
  | [] => []
  | node :: rest => text node :: texts rest

/-- Texts of operands, compound ones in parentheses. -/
def operandTexts : List Node → List String
  | [] => []
  | node :: rest => operandText node (text node) :: operandTexts rest

def namedTexts : List (String × Node) → List String
  | [] => []
  | (key, node) :: rest => (key ++ ": " ++ text node) :: namedTexts rest

/-- Texts of the rows in the slot of the filters. -/
def filterTexts : List (String × Node) → List String
  | [] => []
  | (key, ⟨_, _, _, rows, _⟩) :: rest =>
    if key = Slot.filters then rowTexts rows else filterTexts rest

def rowTexts : List Node → List String
  | [] => []
  | ⟨id, name, constant, children, named⟩ :: rest =>
    filterText ⟨id, name, constant, children, named⟩ (valueText named) :: rowTexts rest

/-- The text of the value in a filter row. -/
def valueText : List (String × Node) → String
  | [] => "_"
  | (key, node) :: rest =>
    if key = Slot.value then operandText node (text node) else valueText rest

end

end RuleEditor.Node
