import RuleEditor.Wire.Basic

/-!
# Texts of stored rules

A stored node is a JSON record of its identity, name, literal, positional and named operands. Of
these only the name and both kinds of operands are always written; none has to be there when the
text is read. `Node.serialize` and `Node.deserialize` go from trees to texts and back.
-/

namespace RuleEditor

namespace WireNode

mutual

def toJson : WireNode → Json
  | ⟨id, name, constant, children, named⟩ =>
    .object (
      (match id with
        | some id => [("id", .string id)]
        | none => [])
      ++ [("name", match name with
        | some name => .string name
        | none => .null)]
      ++ (match constant with
        | some constant => [("constant", constant)]
        | none => [])
      ++ [("children", .array (toJsonAll children)),
        ("namedChildren", .object (toJsonNamed named))])

def toJsonAll : List WireNode → List Json
  | [] => []
  | node :: rest => node.toJson :: toJsonAll rest

def toJsonNamed : List (String × WireNode) → List (String × Json)
  | [] => []
  | (key, node) :: rest => (key, node.toJson) :: toJsonNamed rest

end

open Json.Source in
/-- The fields of a stored node, given what decodes the operands and how deep a literal may
nest. -/
def fields (room : Nat) (children : Json.Source → Except Json.Fault (List WireNode))
    (named : Json.Source → Except Json.Fault (List (String × WireNode))) :
    List (Json.Source.Field WireNode) :=
  [field "id" (optional text) fun id node => { node with id := id },
    field "name" (optional text) fun name node => { node with name := name },
    field "constant" (optional (json room)) fun constant node => { node with constant := constant },
    field "children" children fun children node => { node with children := children },
    field "namedChildren" named fun named node => { node with named := named }]

/-- No field given. -/
def blank : WireNode := ⟨none, none, none, [], []⟩

/-- Decodes a stored node where `room` more brackets may be opened. Operands open two, one for
themselves and one for the collection they stand in. -/
def decode : Nat → Json.Source → Except Json.Fault WireNode
  | 0, source => source.unopenedRecord
  | 1, source =>
    source.record (fields 0 Json.Source.unopenedList Json.Source.unopenedEntries) blank
  | room + 2, source =>
    source.record (fields (room + 1) (Json.Source.list (decode room))
      (Json.Source.entries (decode room))) blank

end WireNode

/-- Why a text gives no tree. -/
inductive WireError where
  | unsupported (error : UnsupportedConstant)
  | json (fault : Json.Fault)
  deriving DecidableEq

namespace Node

/-- The text of a tree in stored form. -/
def serialize (node : Node) : Except UnsupportedConstant String := do
  let wire ← node.toWire
  return wire.toJson.text

/-- The tree that a text stores, all of its nodes new. -/
def deserialize (text : String) : StateT Nat (Except WireError) Node := fun next =>
  match Json.parse (WireNode.decode Json.maxDepth) text with
  | .error fault => .error (.json fault)
  | .ok wire =>
    match wire.toNode next with
    | .ok result => .ok result
    | .error error => .error (.unsupported error)

end Node

end RuleEditor
