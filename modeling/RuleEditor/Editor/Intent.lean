import RuleEditor.Aggregation.Draft
import RuleEditor.Condition

/-!
# Edits

An intent is an edit that a reader asks for. `Node.reduce` carries it out on a tree; it fails if its
path is stale, if it does not apply to the node that it is addressed to, or if it commits an
aggregation that has problems.
-/

namespace RuleEditor

/-- An edit. -/
inductive Intent where
  /-- Replaces a node. -/
  | setOperand (path : Path) (node : Node)
  /-- Renames an operator; the number of its operands is brought in line. -/
  | setOperator (path : Path) (name : String)
  /-- Adds an operand to a node that may have any number of them. -/
  | appendChild (path : Path) (node : Node)
  | remove (path : Path)
  /-- Opens a group around the right operand of a line. -/
  | nest (path : Path)
  /-- Closes the group that is the right operand of a line. -/
  | unnest (path : Path)
  /-- Adds a branch to an OR of ANDs. -/
  | addOrBranch
  /-- Adds a condition to a branch. -/
  | addAndCondition (branch : Nat)
  /-- Writes an aggregation in place of a node. -/
  | commitAggregation (path : Path) (draft : Draft)

inductive IntentKind where
  | setOperand
  | setOperator
  | appendChild
  | remove
  | nest
  | unnest
  | addOrBranch
  | addAndCondition
  | commitAggregation
  deriving DecidableEq

namespace IntentKind

def name : IntentKind → String
  | .setOperand => "SetOperand"
  | .setOperator => "SetOperator"
  | .appendChild => "AppendChild"
  | .remove => "Remove"
  | .nest => "Nest"
  | .unnest => "Unnest"
  | .addOrBranch => "AddOrBranch"
  | .addAndCondition => "AddAndCondition"
  | .commitAggregation => "CommitAggregation"

end IntentKind

namespace Intent

def kind : Intent → IntentKind
  | .setOperand _ _ => .setOperand
  | .setOperator _ _ => .setOperator
  | .appendChild _ _ => .appendChild
  | .remove _ => .remove
  | .nest _ => .nest
  | .unnest _ => .unnest
  | .addOrBranch => .addOrBranch
  | .addAndCondition _ => .addAndCondition
  | .commitAggregation _ _ => .commitAggregation

/-- The path of the node that the edit is addressed to. -/
def target : Intent → Path
  | .setOperand path _ => path
  | .setOperator path _ => path
  | .appendChild path _ => path
  | .remove path => path
  | .nest path => path
  | .unnest path => path
  | .addOrBranch => Path.root
  | .addAndCondition branch => [.child branch]
  | .commitAggregation path _ => path

/-- The same edit addressed to another node. An edit that is always addressed to the root, or to a
branch, stays as it is. -/
def withTarget (intent : Intent) (path : Path) : Intent :=
  match intent with
  | .setOperand _ node => .setOperand path node
  | .setOperator _ name => .setOperator path name
  | .appendChild _ node => .appendChild path node
  | .remove _ => .remove path
  | .nest _ => .nest path
  | .unnest _ => .unnest path
  | .addOrBranch => .addOrBranch
  | .addAndCondition branch => .addAndCondition branch
  | .commitAggregation _ draft => .commitAggregation path draft

end Intent

/-- Why an edit was not carried out. -/
inductive EditError where
  | readOnly
  | stale (path : Path)
  | notApplicable (kind : IntentKind) (path : Path)
  | invalidDraft (problem : DraftError)
  deriving DecidableEq

namespace EditError

def message : EditError → String
  | .readOnly => "Editor is read-only"
  | .stale path => StalePath.message ⟨path⟩
  | .notApplicable kind path => kind.name ++ " does not apply to the node at " ++ path.text
  | .invalidDraft problem => "Invalid aggregation: " ++ problem.message

end EditError

/-- An edit under way: it may take new identities, and it may fail. -/
abbrev Edit (α : Type) := StateT Nat (Except EditError) α

namespace Edit

/-- A step that cannot fail. -/
def fresh {α : Type} (action : Fresh α) : Edit α := fun next => .ok (action next)

/-- A step that fails only at a stale path. -/
def stale {α : Type} (action : StateT Nat (Except StalePath) α) : Edit α := fun next =>
  match action next with
  | .ok result => .ok result
  | .error stale => .error (.stale stale.path)

/-- A look at a tree, or a change that takes no identities; it fails only at a stale path. -/
def located {α : Type} : Except StalePath α → Edit α
  | .ok value => fun next => .ok (value, next)
  | .error stale => fun _ => .error (.stale stale.path)

/-- A step that has to apply. -/
def applicable {α : Type} (kind : IntentKind) (path : Path) : Option α → Edit α
  | some value => fun next => .ok (value, next)
  | none => fun _ => .error (.notApplicable kind path)

/-- A step that commits a draft. -/
def commit (draft : Draft) : Edit Node := fun next =>
  match draft.commit next with
  | .ok result => .ok result
  | .error problem => .error (.invalidDraft problem)

end Edit

namespace Node

/-- As many new placeholders as there are operands missing. -/
def blanks : Nat → Fresh (List Node)
  | 0 => pure []
  | count + 1 => do
    let blank ← undefined
    let rest ← blanks count
    return blank :: rest

/-- The node as another operator. If that one has a fixed number of operands, the ones that are too
many go and placeholders stand for those that are missing. -/
def withOperator (node : Node) (name : String) : Fresh Node := do
  match Name.arity name with
  | .fixed count =>
    let missing ← blanks (count - node.children.length)
    return { node.renamed name with children := node.children.take count ++ missing }
  | _ => return node.renamed name

/-- Carries out an edit. In an OR of ANDs, removing the last condition of a branch removes the
branch. -/
def reduce (root : Node) : Intent → Edit Node
  | .setOperand path node => Edit.located (root.put path node)
  | .setOperator path name => do
    let node ← Edit.located (root.get path)
    let _ ← Edit.applicable .setOperator path node.function?
    let renamed ← Edit.fresh (node.withOperator name)
    Edit.located (root.put path renamed)
  | .appendChild path node => do
    let parent ← Edit.located (root.get path)
    if parent.isVariadic then Edit.located (root.append path node)
    else throw (.notApplicable .appendChild path)
  | .remove path =>
    if root.isOrOfAnd then Edit.stale (root.removeCondition path)
    else Edit.stale (root.remove path)
  | .nest path => do
    let node ← Edit.located (root.get path)
    let nested ← Edit.fresh node.nest?
    let nested ← Edit.applicable .nest path nested
    Edit.located (root.put path nested)
  | .unnest path => do
    let node ← Edit.located (root.get path)
    let unnested ← Edit.applicable .unnest path node.unnest?
    Edit.located (root.put path unnested)
  | .addOrBranch => do
    let updated ← Edit.fresh root.addOrBranch?
    Edit.applicable .addOrBranch Path.root updated
  | .addAndCondition branch => do
    let updated ← Edit.fresh (root.addAndCondition? branch)
    Edit.applicable .addAndCondition [.child branch] updated
  | .commitAggregation path draft => do
    let node ← Edit.commit draft
    Edit.located (root.put path node)

end Node

end RuleEditor
