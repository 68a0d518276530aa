import RuleEditor.Context.Basic
import RuleEditor.Layout
import RuleEditor.Validation.Error

/-!
# Validation of structure

What can be said about a rule without evaluating it: whether the root has a shape that its kind
allows, and for every operator and function whether it has the right number of operands, whether
they are chosen, whether the required named ones are there, and, given a context, whether what the
rule refers to exists.

`Node.findings` lists the errors in the order in which they are found, the root shape first and then
node by node. `Node.validateLocal` collects them by path.
-/

namespace RuleEditor.Node

/-- An error at a path. -/
abbrev Finding := Path × EvaluationError

/-- The shape of the root. -/
def rootFindings (root : Node) : RootKind → List Finding
  | .trigger =>
    if (root.layout Path.root).isTriggerRoot then []
    else
      [(Path.root, { EvaluationError.ofCode .rootShapeUnresolved with
        message := some "trigger condition must be an AND or an OR of ANDs" })]
  | .rule =>
    if root.isUndefined then [(Path.root, EvaluationError.ofCode .argumentRequired)] else []

/-- The number of positional operands. -/
def arityFindings (node : Node) (path : Path) (name : String) : List Finding :=
  match Name.arity name with
  | .fixed count =>
    if node.children.length = count then []
    else
      [(path, { EvaluationError.ofCode .wrongNumberOfArguments with
        message := some (name ++ " takes " ++ toString count ++ ", got "
          ++ toString node.children.length) })]
  | _ => []

/-- Operands from position `index` on that are not chosen. -/
def operandFindings (path : Path) (index : Nat) : List Node → List Finding
  | [] => []
  | child :: rest =>
    (if child.isUndefined then
      [(path.child index, { EvaluationError.ofCode .argumentRequired with
        argumentIndex := some (UInt64.ofNat index) })]
    else [])
    ++ operandFindings path (index + 1) rest

/-- Whether a filter compares with a value. Unary operators take none. -/
def filterNeedsValue (filter : Node) : Bool :=
  !(filter.slotString? Slot.operator).any Name.isUnary

/-- A required named operand. -/
def slotFindings (node : Node) (path : Path) (name slot : String) : List Finding :=
  if name = Name.filter && slot = Slot.value && !node.filterNeedsValue then []
  else
    match node.slot? slot with
    | none =>
      [(path, { EvaluationError.ofCode .missingNamedArgument with argumentName := some slot })]
    | some operand =>
      if operand.isUndefined then
        [(path.named slot, { EvaluationError.ofCode .argumentRequired with
          argumentName := some slot })]
      else []

/-- The aggregator of an aggregation. -/
def aggregatorFindings (node : Node) (path : Path) (name : String) : List Finding :=
  if name = Name.aggregation then
    match node.slotString? Slot.aggregator with
    | some aggregator =>
      if (Aggregator.ofName? aggregator).isSome then []
      else
        [(path.named Slot.aggregator, { EvaluationError.ofCode .argumentInvalidType with
          message := some ("unknown aggregator " ++ aggregator) })]
    | none => []
  else []

/-- What a node refers to. -/
def referenceFindings (context : Context) (node : Node) (path : Path) (name : String) :
    List Finding :=
  let missing (code : ErrorCode) (what : String) : List Finding :=
    [(path, { EvaluationError.ofCode code with message := some ("no " ++ what) })]
  if name = Name.payload then
    match (node.child? 0).bind string? with
    | some field =>
      if (context.payloadField? field).isSome then []
      else missing .payloadFieldNotFound ("payload field " ++ field)
    | none => []
  else if name = Name.databaseAccess then
    match node.slotString? Slot.tableName, node.slotString? Slot.fieldName with
    | some table, some field =>
      if (context.databaseField? table node.links field).isSome then []
      else missing .databaseAccessNotFound
        ("field " ++ ".".intercalate (table :: node.links ++ [field]))
    | _, _ => []
  else if name = Name.customListAccess then
    match node.slotString? Slot.customListId with
    | some id => if (context.list? id).isSome then [] else missing .listNotFound ("list " ++ id)
    | none => []
  else []

/-- The findings about one node and its operands. -/
def nodeFindings (context : Option Context) (path : Path) (node : Node) : List Finding :=
  match node.function? with
  | none => []
  | some name =>
    node.arityFindings path name
      ++ operandFindings path 0 node.children
      ++ (Name.requiredSlots name).flatMap (node.slotFindings path name)
      ++ node.aggregatorFindings path name
      ++ (match context.filter (!·.isEmpty) with
        | some context => node.referenceFindings context path name
        | none => [])

/-- The errors of a tree in the order in which they are found. -/
def findings (root : Node) (kind : RootKind) (context : Option Context) : List Finding :=
  root.rootFindings kind ++ root.walk.flatMap fun (path, node) => node.nodeFindings context path

/-- The errors of a tree by path. -/
def validateLocal (root : Node) (kind : RootKind) (context : Option Context) : PathErrors :=
  PathErrors.addAll ∅ (root.findings kind context)

end RuleEditor.Node
