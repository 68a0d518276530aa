import RuleEditor.Layout

/-!
# Changing conditions

**Grouping.** `nest?` turns the line `l op r` into `l op (r op _)`, and `unnest?` turns
`l op (r op' x)` back into `l op r`.

**Root shapes.** `wrapInAnd` and `wrapInOrOfAnd` bring a tree into one of the two shapes of a
trigger condition. A tree that has the shape is left as it is.

**Branches.** An OR of ANDs gains branches and conditions, and loses them: a branch goes with its
last condition.
-/

namespace RuleEditor.Node

/-! ## Grouping -/

/-- The same node with another right operand. -/
def withRight (node right : Node) : Node := { node with children := node.children.set 1 right }

/-- Opens a group around the right operand of a line. -/
def nest? (node : Node) : Fresh (Option Node) := do
  match node.isBinaryLine, node.function?, node.child? 1 with
  | true, some operator, some right =>
    let blank ← undefined
    let group ← binary operator right blank
    return some (node.withRight group)
  | _, _, _ => return none

/-- Closes the group that is the right operand of a line; what stands right in the group is
dropped. -/
def unnest? (node : Node) : Option Node := do
  let right ← node.child? 1
  let inner ← right.child? 0
  if node.isBinaryLine && right.isBinaryLine then some (node.withRight inner) else none

/-! ## Root shapes -/

/-- A comparison with both operands still to choose. -/
def emptyCondition : Fresh Node := do
  let left ← undefined
  let right ← undefined
  binary Name.equal left right

/-- The tree as an AND: its only condition, unless it is an AND or nothing is chosen yet. -/
def wrapInAnd (node : Node) : Fresh Node :=
  if node.applies Name.and then pure node
  else if node.isUndefined then apply Name.and []
  else apply Name.and [node]

/-- The tree as an OR of ANDs: each operand of an OR is a branch, any other tree the only one. -/
def wrapInOrOfAnd (node : Node) : Fresh Node := do
  if node.isOrOfAnd then
    return node
  else if node.applies Name.or then
    let branches ← Fresh.all (node.children.map wrapInAnd)
    return { node with children := branches }
  else
    let branch ← wrapInAnd node
    apply Name.or [branch]

/-! ## Branches -/

/-- Adds an operand behind the positional ones. -/
def push (node operand : Node) : Node := { node with children := node.children ++ [operand] }

/-- Adds a branch with an empty condition, if the tree is an OR of ANDs. -/
def addOrBranch? (root : Node) : Fresh (Option Node) := do
  if root.isOrOfAnd then
    let condition ← emptyCondition
    let branch ← apply Name.and [condition]
    return some (root.push branch)
  else return none

/-- Adds an empty condition to a branch, if the tree is an OR of ANDs and has the branch. -/
def addAndCondition? (root : Node) (index : Nat) : Fresh (Option Node) := do
  match root.isOrOfAnd, root.child? index with
  | true, some branch =>
    let condition ← emptyCondition
    return some { root with children := root.children.set index (branch.push condition) }
  | _, _ => return none

/-- Takes out the node that a path leads to. A branch that loses its last condition is taken out
too. -/
def removeCondition (root : Node) (path : Path) : StateT Nat (Except StalePath) Node := do
  let updated ← root.remove path
  match path with
  | [.child index, .child _] =>
    let emptied := (updated.child? index).any (·.children.isEmpty)
    if root.isOrOfAnd && updated.isOrOfAnd && emptied then
      updated.remove [.child index]
    else return updated
  | _ => return updated

end RuleEditor.Node
