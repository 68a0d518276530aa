import RuleEditor.Node.Basic

/-!
# Kinds of operands

Every node can be edited as one opaque operand. Its kind decides which picker is shown for it.
-/

namespace RuleEditor

inductive OperandKind where
  | undefined
  | constant
  | payload
  | databaseAccess
  | customList
  | aggregation
  /-- A function that is none of the others. -/
  | function
  /-- An operator applied to operands. -/
  | formula
  deriving DecidableEq

def Node.operandKind (node : Node) : OperandKind :=
  match node.name with
  | .undefined => .undefined
  | .constant => .constant
  | .function name =>
    if name = Name.payload then .payload
    else if name = Name.databaseAccess then .databaseAccess
    else if name = Name.customListAccess then .customList
    else if name = Name.aggregation then .aggregation
    else if Name.isOperator name then .formula
    else .function

end RuleEditor
