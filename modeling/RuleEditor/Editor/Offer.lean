import RuleEditor.Editor.Basic

/-!
# Edits on offer

Which edits a reader is offered at a node. Nothing is offered in view mode and at a stale path.
-/

namespace RuleEditor

namespace Node

/-- The edits that apply to the node at `path`, in the order in which they are shown. -/
def offered (root : Node) (path : Path) : List IntentKind :=
  match root.at? path with
  | none => []
  | some node =>
    [.setOperand, .remove]
      ++ (if node.isCompound then [.setOperator] else [])
      ++ (if node.isVariadic then [.appendChild] else [])
      ++ (if node.isBinaryLine then
          .nest :: (if (node.child? 1).any isBinaryLine then [.unnest] else [])
        else [])
      ++ (if node.applies Name.aggregation || node.isUndefined then [.commitAggregation] else [])
      ++ (if root.isOrOfAnd then
          match path with
          | [] => [.addOrBranch]
          | [.child _] => [.addAndCondition]
          | _ => []
        else [])

end Node

namespace Editor

/-- Whether edits are on offer at all. -/
def offersEdits (editor : Editor) : Bool := editor.config.mode = .edit

/-- The edits on offer at a node. -/
def offered (editor : Editor) (path : Path) : List IntentKind :=
  if editor.offersEdits then editor.root.offered path else []

/-- The operators that the node at `path` may be switched to. -/
def operatorChoices (editor : Editor) (path : Path) : List String :=
  match (editor.root.at? path).bind (·.function?) with
  | none => []
  | some name =>
    ((editor.context.map (·.operators)).getD OperatorCatalogue.full).alternatives name

/-- Whether an edit is on offer at the node that it is addressed to. -/
def offers (editor : Editor) (intent : Intent) : Bool :=
  intent.kind ∈ editor.offered intent.target &&
    match intent with
    | .setOperator path name => name ∈ editor.operatorChoices path
    | _ => true

end Editor

end RuleEditor
