import RuleEditor.Path.Tree

/-!
# Stored rules

`WireNode` is the form in which rules are stored and sent to be validated. A literal has no name,
a placeholder the name `Undefined`, and literal values are JSON values.

**Writing.** `Node.toWire` fails at the first literal, operands after their node and named operands
after positional ones, that holds a floating point number JSON cannot write.

**Reading.** `WireNode.toNode` gives every node a new identity. It fails at the first literal, in
the same order, that holds a JSON object. A whole number beyond 64 signed bits becomes a floating
point number.
-/

namespace RuleEditor

/-- A node in stored form. -/
structure WireNode where
  id : Option String
  name : Option String
  constant : Option Json
  children : List WireNode
  named : List (String × WireNode)

/-- A literal that the other form cannot express: where it stands, and the part that is to blame. -/
structure UnsupportedConstant where
  location : Path
  value : String
  deriving DecidableEq

def UnsupportedConstant.message (error : UnsupportedConstant) : String :=
  "Unsupported constant literal at " ++ error.location.text ++ ": " ++ error.value

/-! ## Literals -/

namespace Constant

mutual

/-- The JSON value of a literal, or the number that JSON cannot write. -/
def toJson : Constant → Except Binary64 Json
  | .null => .ok .null
  | .bool b => .ok (.bool b)
  | .int n => .ok (.number (.ofInt64 n))
  | .float x =>
    match Json.Number.ofBinary64? x with
    | some n => .ok (.number n)
    | none => .error x
  | .string s => .ok (.string s)
  | .list items => do
    let items ← toJsonAll items
    return .array items

def toJsonAll : List Constant → Except Binary64 (List Json)
  | [] => .ok []
  | item :: rest => do
    let item ← toJson item
    let rest ← toJsonAll rest
    return item :: rest

end

/-- The literal of a JSON number. -/
def ofNumber : Json.Number → Constant
  | .integer n _ =>
    if n < 0x8000000000000000 then .int (Int64.ofInt n)
    else .float (Decimal.nearest false ⟨n.toNat, 0⟩)
  | .real x _ => .float x

mutual

/-- The literal of a JSON value, or the object that no literal expresses. -/
def ofJson : Json → Except Json Constant
  | .null => .ok .null
  | .bool b => .ok (.bool b)
  | .number n => .ok (ofNumber n)
  | .string s => .ok (.string s)
  | .array items => do
    let items ← ofJsonAll items
    return .list items
  | .object members => .error (.object members)

def ofJsonAll : List Json → Except Json (List Constant)
  | [] => .ok []
  | item :: rest => do
    let item ← ofJson item
    let rest ← ofJsonAll rest
    return item :: rest

end

end Constant

/-! ## Writing -/

namespace Node

/-- The stored name. -/
def wireName : NodeName → Option String
  | .undefined => some Name.undefined
  | .constant => none
  | .function name => some name

/-- The stored literal of a node at `location`. A literal node always stores one. -/
def wireConstant (location : Path) (name : NodeName) (constant : Option Constant) :
    Except UnsupportedConstant (Option Json) :=
  let constant := if name = .constant then some (constant.getD .null) else constant
  match constant with
  | none => .ok none
  | some constant =>
    match constant.toJson with
    | .ok json => .ok (some json)
    | .error x => .error ⟨location, x.displayText⟩

mutual

/-- The stored form of the node at `location`. -/
def toWireAt (location : Path) : Node → Except UnsupportedConstant WireNode
  | ⟨id, name, constant, children, named⟩ => do
    let constant ← wireConstant location name constant
    let children ← toWireChildren location 0 children
    let named ← toWireNamed location named
    return ⟨some (toString id), wireName name, constant, children, named⟩

def toWireChildren (location : Path) (index : Nat) :
    List Node → Except UnsupportedConstant (List WireNode)
  | [] => .ok []
  | child :: rest => do
    let child ← toWireAt (location.child index) child
    let rest ← toWireChildren location (index + 1) rest
    return child :: rest

def toWireNamed (location : Path) :
    List (String × Node) → Except UnsupportedConstant (List (String × WireNode))
  | [] => .ok []
  | (key, child) :: rest => do
    let child ← toWireAt (location.named key) child
    let rest ← toWireNamed location rest
    return (key, child) :: rest

end

def toWire (node : Node) : Except UnsupportedConstant WireNode := toWireAt Path.root node

end Node

/-! ## Reading -/

namespace WireNode

def nodeName : Option String → NodeName
  | none => .constant
  | some name => if name = Name.undefined then .undefined else .function name

/-- The literal of a node at `location`. Null is a literal of a literal node only. -/
def nodeConstant (location : Path) (name : NodeName) (constant : Option Json) :
    Except UnsupportedConstant (Option Constant) :=
  let literal (json : Json) : Except UnsupportedConstant (Option Constant) :=
    match Constant.ofJson json with
    | .ok constant => .ok (some constant)
    | .error json => .error ⟨location, json.text⟩
  match name, constant with
  | .constant, constant => literal (constant.getD .null)
  | _, none => .ok none
  | _, some .null => .ok none
  | _, some json => literal json

mutual

/-- The node of the stored node at `location`. -/
def toNodeAt (location : Path) : WireNode → StateT Nat (Except UnsupportedConstant) Node
  | ⟨_, name, constant, children, named⟩ => do
    let name := nodeName name
    let constant ← nodeConstant location name constant
    let id ← modifyGet fun next => (next, next + 1)
    let children ← toNodeChildren location 0 children
    let named ← toNodeNamed location named
    return ⟨id, name, constant, children, named⟩

def toNodeChildren (location : Path) (index : Nat) :
    List WireNode → StateT Nat (Except UnsupportedConstant) (List Node)
  | [] => pure []
  | child :: rest => do
    let child ← toNodeAt (location.child index) child
    let rest ← toNodeChildren location (index + 1) rest
    return child :: rest

def toNodeNamed (location : Path) :
    List (String × WireNode) → StateT Nat (Except UnsupportedConstant) (List (String × Node))
  | [] => pure []
  | (key, child) :: rest => do
    let child ← toNodeAt (location.named key) child
    let rest ← toNodeNamed location rest
    return (key, child) :: rest

end

def toNode (wire : WireNode) : StateT Nat (Except UnsupportedConstant) Node :=
  toNodeAt Path.root wire

end WireNode

end RuleEditor
