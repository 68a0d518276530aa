import RuleEditor.Proofs.Action
import RuleEditor.Proofs.Binary64.Nearest
import RuleEditor.Wire.Basic

/-!
# Stored trees in normal form

`WireNode.normalize` is what remains of a stored tree when it is read and stored again.

**What changes.** Every node gets a new identity. A literal node without a literal stores null, and
any other node drops a null. A whole number beyond 64 signed bits becomes a floating point number.
Everything else, the order of named operands included, stays as it is.

**Reading and storing.** Every stored tree that can be read stores its normal form
(`WireNode.toWire_of_toNode`). Normalizing again changes identities only.
-/

namespace RuleEditor

namespace Json

/-! ## Numbers that literals hold -/

theorem Number.isFinite_nearest {n : Int}
    (inRange : -0x8000000000000000 ≤ n ∧ n < 0x10000000000000000) :
    (Decimal.nearest false ⟨n.toNat, 0⟩).isFinite = true :=
  Decimal.isFinite_nearest (by omega) false

/-- The number that the literal of a number stores. -/
def Number.narrow : Number → Number
  | .integer n inRange =>
    if n < 0x8000000000000000 then .integer n inRange
    else .real (Decimal.nearest false ⟨n.toNat, 0⟩) (isFinite_nearest inRange)
  | .real x finite => .real x finite

mutual

/-- The value with the numbers in it as literals store them. -/
def narrow : Json → Json
  | .number n => .number n.narrow
  | .array items => .array (narrowAll items)
  | json => json

def narrowAll : List Json → List Json
  | [] => []
  | item :: rest => item.narrow :: narrowAll rest

end

theorem Number.narrow_narrow (n : Number) : n.narrow.narrow = n.narrow := by
  cases n with
  | integer n inRange =>
    by_cases small : n < 0x8000000000000000
    · simp only [narrow, if_pos small]
    · simp only [narrow, if_neg small]
  | real x finite => rfl

mutual

theorem narrow_narrow : ∀ json : Json, json.narrow.narrow = json.narrow
  | .number n => congrArg Json.number n.narrow_narrow
  | .array items => congrArg Json.array (narrowAll_narrowAll items)
  | .null => rfl
  | .bool _ => rfl
  | .string _ => rfl
  | .object _ => rfl

theorem narrowAll_narrowAll : ∀ items : List Json, narrowAll (narrowAll items) = narrowAll items
  | [] => rfl
  | item :: rest => congrArg₂ List.cons (narrow_narrow item) (narrowAll_narrowAll rest)

end

theorem narrow_eq_null {json : Json} (null : json.narrow = .null) : json = .null := by
  cases json with
  | null => rfl
  | _ => cases null

end Json

namespace Constant

theorem toJson_ofNumber (n : Json.Number) :
    (ofNumber n).toJson = .ok (.number n.narrow) := by
  cases n with
  | integer n inRange =>
    by_cases small : n < 0x8000000000000000
    · have same : (Int64.ofInt n).toInt = n := Int64.toInt_ofInt_of_le inRange.1 small
      simp only [ofNumber, Json.Number.narrow, if_pos small, toJson, Json.Number.ofInt64, same]
    · have finite := Json.Number.isFinite_nearest inRange
      simp only [ofNumber, Json.Number.narrow, if_neg small, toJson, Json.Number.ofBinary64?,
        dif_pos finite]
  | real x finite =>
    simp only [ofNumber, Json.Number.narrow, toJson, Json.Number.ofBinary64?, dif_pos finite]

mutual

/-- The literal of a value stores this value, but for its numbers. -/
theorem toJson_of_ofJson : ∀ {json : Json} {constant : Constant}, ofJson json = .ok constant →
    constant.toJson = .ok json.narrow
  | .null, _, h => by cases h; rfl
  | .bool _, _, h => by cases h; rfl
  | .number n, _, h => by cases h; exact toJson_ofNumber n
  | .string _, _, h => by cases h; rfl
  | .array items, constant, h => by
    obtain ⟨constants, read, eq⟩ := Except.bind_eq_ok.1 h
    cases eq
    show (toJsonAll constants >>= fun items => Except.ok (Json.array items)) = _
    rw [toJsonAll_of_ofJsonAll read]
    rfl
  | .object _, _, h => by cases h

theorem toJsonAll_of_ofJsonAll : ∀ {items : List Json} {constants : List Constant},
    ofJsonAll items = .ok constants → toJsonAll constants = .ok (Json.narrowAll items)
  | [], _, h => by cases h; rfl
  | item :: rest, _, h => by
    obtain ⟨constant, first, h⟩ := Except.bind_eq_ok.1 h
    obtain ⟨constants, later, eq⟩ := Except.bind_eq_ok.1 h
    cases eq
    show (toJson constant >>= fun item => toJsonAll constants >>= fun rest =>
      Except.ok (item :: rest)) = _
    rw [toJson_of_ofJson first, toJsonAll_of_ofJsonAll later]
    rfl

end

end Constant

namespace WireNode

/-! ## Normal form -/

/-- What a node of some name stores after its literal has been read. -/
def normalConstant (name : Option String) (constant : Option Json) : Option Json :=
  match name, constant with
  | none, constant => some (constant.getD .null).narrow
  | some _, none => none
  | some _, some .null => none
  | some _, some json => some json.narrow

mutual

/-- What is stored of a stored tree after it has been read, its nodes having new identities. -/
def normalize : WireNode → Fresh WireNode
  | ⟨_, name, constant, children, named⟩ => do
    let id ← Fresh.id
    let children ← normalizeAll children
    let named ← normalizeNamed named
    return ⟨some (toString id), name, normalConstant name constant, children, named⟩

def normalizeAll : List WireNode → Fresh (List WireNode)
  | [] => pure []
  | node :: rest => do
    let node ← normalize node
    let rest ← normalizeAll rest
    return node :: rest

def normalizeNamed : List (String × WireNode) → Fresh (List (String × WireNode))
  | [] => pure []
  | (key, node) :: rest => do
    let node ← normalize node
    let rest ← normalizeNamed rest
    return (key, node) :: rest

end

theorem normalConstant_of_ne_null (name : String) {json : Json} (other : json ≠ .null) :
    normalConstant (some name) (some json) = some json.narrow := by
  cases json with
  | null => exact absurd rfl other
  | _ => rfl

theorem normalConstant_normalConstant (name : Option String) (constant : Option Json) :
    normalConstant name (normalConstant name constant) = normalConstant name constant := by
  cases name with
  | none => exact congrArg some (Json.narrow_narrow _)
  | some name =>
    cases constant with
    | none => rfl
    | some json =>
      by_cases null : json = .null
      · rw [null]
        rfl
      · have kept : json.narrow ≠ .null := fun same => null (Json.narrow_eq_null same)
        rw [normalConstant_of_ne_null name null, normalConstant_of_ne_null name kept,
          Json.narrow_narrow]

/-- The node takes its identity before its operands do. -/
theorem normalize_mk (id name : Option String) (constant : Option Json) (children : List WireNode)
    (named : List (String × WireNode)) (next : Nat) :
    normalize ⟨id, name, constant, children, named⟩ next =
      (⟨some (toString next), name, normalConstant name constant,
          (normalizeAll children (next + 1)).1,
          (normalizeNamed named (normalizeAll children (next + 1)).2).1⟩,
        (normalizeNamed named (normalizeAll children (next + 1)).2).2) := rfl

theorem normalizeAll_cons (wire : WireNode) (rest : List WireNode) (next : Nat) :
    normalizeAll (wire :: rest) next =
      ((wire.normalize next).1 :: (normalizeAll rest (wire.normalize next).2).1,
        (normalizeAll rest (wire.normalize next).2).2) := rfl

theorem normalizeNamed_cons (key : String) (wire : WireNode) (rest : List (String × WireNode))
    (next : Nat) :
    normalizeNamed ((key, wire) :: rest) next =
      ((key, (wire.normalize next).1) :: (normalizeNamed rest (wire.normalize next).2).1,
        (normalizeNamed rest (wire.normalize next).2).2) := rfl

mutual

/-- Normalizing twice gives what normalizing once gives, from the supply of the second time. -/
theorem normalize_normalize : ∀ (wire : WireNode) (next other : Nat),
    (wire.normalize next).1.normalize other = wire.normalize other
  | ⟨_, name, constant, children, named⟩, next, other => by
    simp only [normalize_mk, normalConstant_normalConstant, normalizeAll_normalizeAll children,
      normalizeNamed_normalizeNamed named]

theorem normalizeAll_normalizeAll : ∀ (wires : List WireNode) (next other : Nat),
    normalizeAll (normalizeAll wires next).1 other = normalizeAll wires other
  | [], _, _ => rfl
  | wire :: rest, next, other => by
    simp only [normalizeAll_cons, normalize_normalize wire, normalizeAll_normalizeAll rest]

theorem normalizeNamed_normalizeNamed : ∀ (named : List (String × WireNode)) (next other : Nat),
    normalizeNamed (normalizeNamed named next).1 other = normalizeNamed named other
  | [], _, _ => rfl
  | (_, wire) :: rest, next, other => by
    simp only [normalizeNamed_cons, normalize_normalize wire, normalizeNamed_normalizeNamed rest]

end

/-! ## Reading and storing -/

theorem wireName_nodeName (name : Option String) : Node.wireName (nodeName name) = name := by
  cases name with
  | none => rfl
  | some name =>
    by_cases placeholder : name = Name.undefined
    · rw [nodeName, if_pos placeholder, placeholder]
      rfl
    · rw [nodeName, if_neg placeholder]
      rfl

theorem nodeName_some_ne_constant (name : String) : nodeName (some name) ≠ .constant := by
  rw [nodeName]
  split <;> exact nofun

/-- A literal that is read stores its value, but for the numbers. -/
theorem wireConstant_of_ofJson {location : Path} {name : NodeName} {json : Json}
    {constant : Constant} (read : Constant.ofJson json = .ok constant) :
    Node.wireConstant location name (some constant) = .ok (some json.narrow) := by
  simp only [Node.wireConstant, Option.getD_some, ite_self, Constant.toJson_of_ofJson read]

theorem nodeConstant_eq_ok {location : Path} {name : NodeName} {constant : Option Json}
    {value : Option Constant} (read : nodeConstant location name constant = .ok value) :
    (∃ literal, value = some literal ∧ Constant.ofJson (constant.getD .null) = .ok literal ∧
        (name ≠ .constant → ∃ json, constant = some json ∧ json ≠ .null)) ∨
      name ≠ .constant ∧ value = none ∧ (constant = none ∨ constant = some .null) := by
  unfold nodeConstant at read
  split at read
  · dsimp only at read
    split at read
    · next literal known =>
      cases read
      exact Or.inl ⟨literal, rfl, known, fun named => absurd rfl named⟩
    · cases read
  · next other =>
    cases read
    exact Or.inr ⟨other, rfl, Or.inl rfl⟩
  · next other =>
    cases read
    exact Or.inr ⟨other, rfl, Or.inr rfl⟩
  · next json notNull _ =>
    dsimp only at read
    split at read
    · next literal known =>
      cases read
      exact Or.inl ⟨literal, rfl, known, fun _ => ⟨json, rfl, notNull⟩⟩
    · cases read

/-- The literal that is read from a node stores what normalizing the node keeps of it. -/
theorem wireConstant_of_nodeConstant {location : Path} {name : Option String}
    {constant : Option Json} {value : Option Constant}
    (read : nodeConstant location (nodeName name) constant = .ok value) (other : Path) :
    Node.wireConstant other (nodeName name) value = .ok (normalConstant name constant) := by
  rcases nodeConstant_eq_ok read with ⟨literal, rfl, known, own⟩ | ⟨named, rfl, nothing⟩
  · rw [wireConstant_of_ofJson known]
    cases name with
    | none => rfl
    | some name =>
      obtain ⟨json, rfl, other⟩ := own (nodeName_some_ne_constant name)
      rw [normalConstant_of_ne_null name other]
      rfl
  · cases name with
    | none => exact absurd rfl named
    | some name =>
      rw [Node.wireConstant, if_neg named]
      rcases nothing with rfl | rfl <;> rfl

mutual

theorem toWireAt_of_toNodeAt : ∀ {wire : WireNode} {location : Path} {next rest : Nat}
    {node : Node}, wire.toNodeAt location next = .ok (node, rest) → ∀ other : Path,
      node.toWireAt other = .ok (wire.normalize next).1 ∧ rest = (wire.normalize next).2
  | ⟨_, name, constant, children, named⟩, location, next, rest, node, h, other => by
    obtain ⟨value, _, literal, h⟩ := StateT.bind_eq_ok.1 h
    obtain ⟨read, rfl⟩ := StateT.lift_eq_ok.1 literal
    obtain ⟨id, _, taken, h⟩ := StateT.bind_eq_ok.1 h
    obtain ⟨children', mid, positional, h⟩ := StateT.bind_eq_ok.1 h
    obtain ⟨named', _, keyed, h⟩ := StateT.bind_eq_ok.1 h
    cases h
    cases taken
    obtain ⟨stored, rfl⟩ := toWireChildren_of_toNodeChildren positional other 0
    obtain ⟨stored', rfl⟩ := toWireNamed_of_toNodeNamed keyed other
    refine ⟨?_, rfl⟩
    rw [Node.toWireAt, wireConstant_of_nodeConstant read other, stored, stored', wireName_nodeName]
    rfl

theorem toWireChildren_of_toNodeChildren : ∀ {wires : List WireNode} {location : Path}
    {index next rest : Nat} {nodes : List Node},
    toNodeChildren location index wires next = .ok (nodes, rest) → ∀ (other : Path) (first : Nat),
      Node.toWireChildren other first nodes = .ok (normalizeAll wires next).1 ∧
        rest = (normalizeAll wires next).2
  | [], _, _, _, _, _, h, _, _ => by
    cases h
    exact ⟨rfl, rfl⟩
  | wire :: wires, location, index, next, rest, nodes, h, other, first => by
    obtain ⟨node, mid, head, h⟩ := StateT.bind_eq_ok.1 h
    obtain ⟨nodes', _, tail, h⟩ := StateT.bind_eq_ok.1 h
    cases h
    obtain ⟨stored, rfl⟩ := toWireAt_of_toNodeAt head (other.child first)
    obtain ⟨stored', rfl⟩ := toWireChildren_of_toNodeChildren tail other (first + 1)
    refine ⟨?_, rfl⟩
    rw [Node.toWireChildren, stored, stored']
    rfl

theorem toWireNamed_of_toNodeNamed : ∀ {wires : List (String × WireNode)} {location : Path}
    {next rest : Nat} {named : List (String × Node)},
    toNodeNamed location wires next = .ok (named, rest) → ∀ other : Path,
      Node.toWireNamed other named = .ok (normalizeNamed wires next).1 ∧
        rest = (normalizeNamed wires next).2
  | [], _, _, _, _, h, _ => by
    cases h
    exact ⟨rfl, rfl⟩
  | (key, wire) :: wires, location, next, rest, named, h, other => by
    obtain ⟨node, mid, head, h⟩ := StateT.bind_eq_ok.1 h
    obtain ⟨named', _, tail, h⟩ := StateT.bind_eq_ok.1 h
    cases h
    obtain ⟨stored, rfl⟩ := toWireAt_of_toNodeAt head (other.named key)
    obtain ⟨stored', rfl⟩ := toWireNamed_of_toNodeNamed tail other
    refine ⟨?_, rfl⟩
    rw [Node.toWireNamed, stored, stored']
    rfl

end

end WireNode

end RuleEditor
