import RuleEditor.Operand
import RuleEditor.Path.Tree

/-!
# Layouts

The same tree is edited in different ways depending on its shape. `Node.layout` chooses the way.
At the root of a trigger condition an AND is a list of conditions, and an OR of ANDs a list of
branches; elsewhere a binary operator with its two operands is a line, an aggregation is edited as
a whole, and everything else is one opaque operand. Names are looked at before operands are counted,
so that an AND with two operands is never a line.
-/

namespace RuleEditor

/-- What the edited tree is the root of. -/
inductive RootKind where
  /-- The formula of a rule, which is any expression. -/
  | rule
  /-- The condition of a trigger, which is an AND or an OR of ANDs. -/
  | trigger
  deriving DecidableEq

/-- One of the ANDs under an OR. -/
structure Branch where
  path : Path
  conditions : List Path

inductive Layout where
  | rootOrOfAnd (branches : List Branch)
  | rootAnd (conditions : List Path)
  /-- A line is nested if its right operand is a line. -/
  | binaryLine (path : Path) (operator : String) (left right : Path) (nested : Bool)
  | aggregationCall (path : Path) (aggregation : Node)
  | generic (path : Path) (operand : OperandKind)

namespace Layout

/-- Whether a trigger condition may have this layout at its root. -/
def isTriggerRoot : Layout → Bool
  | .rootOrOfAnd _ => true
  | .rootAnd _ => true
  | _ => false

end Layout

namespace Node

/-- Whether the node is an OR whose operands are all ANDs. -/
def isOrOfAnd (node : Node) : Bool :=
  node.applies Name.or && node.children.all (·.applies Name.and)

/-- Whether the node is a binary operator with its two operands and nothing else. -/
def isBinaryLine (node : Node) : Bool :=
  node.function?.any Name.isBinary && node.children.length = 2 && node.named.isEmpty

/-- The paths of the positional operands. -/
def childPaths (node : Node) (path : Path) : List Path :=
  (List.range node.children.length).map path.child

/-- The ANDs from position `index` on. -/
def branches (path : Path) (index : Nat) : List Node → List Branch
  | [] => []
  | branch :: rest =>
    ⟨path.child index, branch.childPaths (path.child index)⟩ :: branches path (index + 1) rest

/-- The layout of the node at `path`. -/
def layout (node : Node) (path : Path) : Layout :=
  if path.isRoot && node.isOrOfAnd then .rootOrOfAnd (branches path 0 node.children)
  else if path.isRoot && node.applies Name.and then .rootAnd (node.childPaths path)
  else if node.isBinaryLine then
    .binaryLine path (node.function?.getD "") (path.child 0) (path.child 1)
      ((node.child? 1).any isBinaryLine)
  else if node.applies Name.aggregation then .aggregationCall path node
  else .generic path node.operandKind

end Node

end RuleEditor
