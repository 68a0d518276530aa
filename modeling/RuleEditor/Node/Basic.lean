import RuleEditor.Constant
import RuleEditor.Keyed
import RuleEditor.Vocabulary

/-!
# Rule trees

A rule is a tree. A node is an operand that is not chosen yet, a literal, or an operator or
function applied to operands, some by position and some by name.

**Identity.** Every node has an identity of its own, which it keeps while the tree around it
changes. New nodes take theirs from a supply, so building nodes is a state action (`Fresh`).

**Equality.** `Node.equal` compares what two trees say: identities do not matter, and named
operands are compared by key, in whatever order they stand.

**Named operands.** `Node.DistinctKeys` says that no node has two operands of one name. Every
function of the library that builds a tree keeps it.
-/

namespace RuleEditor

/-- What a node stands for. -/
inductive NodeName where
  /-- An operand that is not chosen yet. This is not the literal null. -/
  | undefined
  /-- A literal. -/
  | constant
  /-- An operator or a function, applied to the operands of the node. -/
  | function (name : String)
  deriving DecidableEq

structure Node where
  id : Nat
  name : NodeName
  /-- The literal of a literal node. Other nodes may carry one too. -/
  constant : Option Constant
  /-- Operands by position. -/
  children : List Node
  /-- Operands by name, in the order in which they were given. -/
  named : List (String × Node)

instance : Inhabited Node := ⟨⟨0, .undefined, none, [], []⟩⟩

/-! ## New identities -/

/-- An action that may take new identities; the state is the next one that nobody has. -/
abbrev Fresh (α : Type) := StateM Nat α

namespace Fresh

def id : Fresh Nat := modifyGet fun next => (next, next + 1)

/-- Runs the actions of a list from left to right. -/
def all {α : Type} : List (Fresh α) → Fresh (List α)
  | [] => pure []
  | action :: rest => do
    let value ← action
    let values ← all rest
    return value :: values

end Fresh

namespace Node

/-! ## Reading a node -/

def isUndefined (node : Node) : Bool := node.name = .undefined

def isConstant (node : Node) : Bool := node.name = .constant

/-- The name of the operator or function. -/
def function? (node : Node) : Option String :=
  match node.name with
  | .function name => some name
  | _ => none

/-- Whether the node applies the operator or function of this name. -/
def applies (node : Node) (name : String) : Bool := node.name = .function name

/-- The literal of the node if it is a string, as in the slots that name tables and fields. -/
def string? (node : Node) : Option String := node.constant.bind Constant.string?

def child? (node : Node) (index : Nat) : Option Node := node.children[index]?

def slot? (node : Node) (key : String) : Option Node := Entries.get? key node.named

/-- The string in the slot of this key. -/
def slotString? (node : Node) (key : String) : Option String := (node.slot? key).bind string?

/-- The links that an accessor follows: the strings in the list in its slot for them. -/
def links (node : Node) : List String :=
  match (node.slot? Slot.path).bind (·.constant) with
  | some (.list items) => items.filterMap Constant.string?
  | _ => []

/-- Whether the node is an operator, which is put in parentheses when it is an operand itself. -/
def isCompound (node : Node) : Bool := node.function?.any Name.isOperator

mutual

/-- The number of nodes of the tree. -/
def size : Node → Nat
  | ⟨_, _, _, children, named⟩ => 1 + sizeAll children + sizeNamed named

def sizeAll : List Node → Nat
  | [] => 0
  | node :: rest => size node + sizeAll rest

def sizeNamed : List (String × Node) → Nat
  | [] => 0
  | (_, node) :: rest => size node + sizeNamed rest

end

mutual

/-- No node of the tree has two operands of one name. -/
def DistinctKeys : Node → Prop
  | ⟨_, _, _, children, named⟩ =>
    (named.map Prod.fst).Nodup ∧ DistinctKeysAll children ∧ DistinctKeysNamed named

def DistinctKeysAll : List Node → Prop
  | [] => True
  | node :: rest => DistinctKeys node ∧ DistinctKeysAll rest

def DistinctKeysNamed : List (String × Node) → Prop
  | [] => True
  | (_, node) :: rest => DistinctKeys node ∧ DistinctKeysNamed rest

end

/-! ## Equality -/

mutual

/-- Whether two trees say the same. -/
def equal : Node → Node → Bool
  | ⟨_, name, constant, children, named⟩, ⟨_, name', constant', children', named'⟩ =>
    name == name' && Constant.equalOptional constant constant' && equalAll children children'
      && named.length == named'.length && equalNamed named named'

def equalAll : List Node → List Node → Bool
  | [], [] => true
  | node :: rest, node' :: rest' => equal node node' && equalAll rest rest'
  | _, _ => false

/-- Whether each named operand of the first list has an equal one of the same name in the
second. -/
def equalNamed : List (String × Node) → List (String × Node) → Bool
  | [], _ => true
  | (key, node) :: rest, others =>
    (match Entries.get? key others with
      | some other => equal node other
      | none => false)
      && equalNamed rest others

end

/-! ## Building nodes -/

/-- A new node with a name and nothing else. -/
def bare (name : NodeName) : Fresh Node := do
  let id ← Fresh.id
  return ⟨id, name, none, [], []⟩

/-- A placeholder for an operand that is not chosen yet. -/
def undefined : Fresh Node := bare .undefined

def literal (value : Constant) : Fresh Node := do
  let node ← bare .constant
  return { node with constant := some value }

def string (value : String) : Fresh Node := literal (.string value)

/-- An operator or function with operands by position. -/
def apply (name : String) (children : List Node) : Fresh Node := do
  let node ← bare (.function name)
  return { node with children := children }

def binary (name : String) (left right : Node) : Fresh Node := apply name [left, right]

/-- A function with operands by name. -/
def call (name : String) (named : List (String × Node)) : Fresh Node := do
  let node ← bare (.function name)
  return { node with
    named := named.foldl (fun stored (key, value) => Entries.store key value stored) [] }

/-- A field of the object that triggers the rule. -/
def payload (field : String) : Fresh Node := do
  let field ← string field
  apply Name.payload [field]

/-- A field reached from a table by following links. -/
def databaseAccess (table : String) (links : List String) (field : String) : Fresh Node := do
  let table ← string table
  let field ← string field
  let links ← literal (.list (links.map .string))
  call Name.databaseAccess
    [(Slot.tableName, table), (Slot.fieldName, field), (Slot.path, links)]

def customList (id : String) : Fresh Node := do
  let id ← string id
  call Name.customListAccess [(Slot.customListId, id)]

/-! ## Changing nodes -/

/-- The same node under another name, with the same operands. -/
def renamed (node : Node) (name : String) : Node := { node with name := .function name }

mutual

/-- A copy in which every node is new. -/
def recreate : Node → Fresh Node
  | ⟨_, name, constant, children, named⟩ => do
    let id ← Fresh.id
    let children ← recreateAll children
    let named ← recreateNamed named
    return ⟨id, name, constant, children, named⟩

def recreateAll : List Node → Fresh (List Node)
  | [] => pure []
  | node :: rest => do
    let node ← recreate node
    let rest ← recreateAll rest
    return node :: rest

def recreateNamed : List (String × Node) → Fresh (List (String × Node))
  | [] => pure []
  | (key, node) :: rest => do
    let node ← recreate node
    let rest ← recreateNamed rest
    return (key, node) :: rest

end

end Node

end RuleEditor
