import RuleEditor.Proofs.Node.Alike
import RuleEditor.Proofs.Wire.Normal

/-!
# Storing trees and reading them back

**Storable trees.** A node is *storable* if its name and its literal fit each other: a literal node
has a literal, no other node has the literal null, no function has the name of placeholders, and
every floating point number is finite.

**Round trips.** A storable tree can be stored, and what is stored is read as a copy of the tree.
Conversely every stored tree that can be read gives a storable tree, and this tree stores the normal
form of what was read.
-/

namespace RuleEditor

namespace Constant

mutual

/-- A literal of finite numbers is stored as a value that is read as this literal. -/
theorem exists_json : ∀ {constant : Constant}, constant.Finite →
    ∃ json, constant.toJson = .ok json ∧ ofJson json = .ok constant
  | .null, _ => ⟨.null, rfl, rfl⟩
  | .bool b, _ => ⟨.bool b, rfl, rfl⟩
  | .int n, _ => by
    have small : n.toInt < 0x8000000000000000 := Int64.toInt_lt n
    refine ⟨.number (.ofInt64 n), rfl, congrArg Except.ok ?_⟩
    rw [Json.Number.ofInt64, ofNumber, if_pos small, Int64.ofInt_toInt]
  | .float x, finite => by
    have finite : x.isFinite = true := finite
    refine ⟨.number (.real x finite), ?_, rfl⟩
    rw [toJson, Json.Number.ofBinary64?, dif_pos finite]
  | .string s, _ => ⟨.string s, rfl, rfl⟩
  | .list items, finite => by
    obtain ⟨stored, written, read⟩ := exists_jsonAll finite
    refine ⟨.array stored, ?_, ?_⟩
    · exact Except.bind_eq_ok.2 ⟨stored, written, rfl⟩
    · exact Except.bind_eq_ok.2 ⟨items, read, rfl⟩

theorem exists_jsonAll : ∀ {items : List Constant}, FiniteAll items →
    ∃ stored, toJsonAll items = .ok stored ∧ ofJsonAll stored = .ok items
  | [], _ => ⟨[], rfl, rfl⟩
  | item :: rest, finite => by
    obtain ⟨json, written, read⟩ := exists_json finite.1
    obtain ⟨stored, writtenRest, readRest⟩ := exists_jsonAll finite.2
    refine ⟨json :: stored, ?_, ?_⟩
    · exact Except.bind_eq_ok.2 ⟨json, written, Except.bind_eq_ok.2 ⟨stored, writtenRest, rfl⟩⟩
    · exact Except.bind_eq_ok.2 ⟨item, read, Except.bind_eq_ok.2 ⟨rest, readRest, rfl⟩⟩

end

theorem finite_ofNumber (n : Json.Number) : (ofNumber n).Finite := by
  cases n with
  | integer n inRange =>
    rw [ofNumber]
    split
    · trivial
    · exact Json.Number.isFinite_nearest inRange
  | real x finite => exact finite

mutual

/-- JSON has finite numbers only. -/
theorem finite_of_ofJson : ∀ {json : Json} {constant : Constant}, ofJson json = .ok constant →
    constant.Finite
  | .null, _, h => by cases h; trivial
  | .bool _, _, h => by cases h; trivial
  | .number n, _, h => by cases h; exact finite_ofNumber n
  | .string _, _, h => by cases h; trivial
  | .array _, _, h => by
    obtain ⟨_, read, eq⟩ := Except.bind_eq_ok.1 h
    cases eq
    exact finiteAll_of_ofJsonAll read
  | .object _, _, h => by cases h

theorem finiteAll_of_ofJsonAll : ∀ {items : List Json} {constants : List Constant},
    ofJsonAll items = .ok constants → FiniteAll constants
  | [], _, h => by cases h; trivial
  | _ :: _, _, h => by
    obtain ⟨_, first, h⟩ := Except.bind_eq_ok.1 h
    obtain ⟨_, later, eq⟩ := Except.bind_eq_ok.1 h
    cases eq
    exact ⟨finite_of_ofJson first, finiteAll_of_ofJsonAll later⟩

end

theorem ofJson_eq_null_iff {json : Json} : ofJson json = .ok .null ↔ json = .null := by
  cases json with
  | null => exact iff_of_true rfl rfl
  | number n =>
    refine iff_of_false (fun h => ?_) nofun
    cases n with
    | integer n inRange =>
      rw [ofJson, ofNumber] at h
      split at h <;> cases h
    | real x finite => cases h
  | array items =>
    refine iff_of_false (fun h => ?_) nofun
    obtain ⟨_, -, eq⟩ := Except.bind_eq_ok.1 h
    cases eq
  | _ => exact iff_of_false nofun nofun

end Constant

namespace Node

/-! ## Storable trees -/

/-- The name and the literal of the node fit each other and have a stored form. -/
structure Storable (node : Node) : Prop where
  literal : node.name = .constant → node.constant ≠ none
  notNull : node.name ≠ .constant → node.constant ≠ some .null
  notUndefined : node.name ≠ .function Name.undefined
  finite : node.FiniteConstant

variable {node : Node}

theorem nodeName_wireName {name : NodeName} (legal : name ≠ .function Name.undefined) :
    WireNode.nodeName (wireName name) = name := by
  cases name with
  | undefined => rw [wireName, WireNode.nodeName, if_pos rfl]
  | constant => rfl
  | function name =>
    have other : name ≠ Name.undefined := fun same => legal (congrArg NodeName.function same)
    rw [wireName, WireNode.nodeName, if_neg other]

theorem nodeConstant_of_ofJson {location : Path} {name : NodeName} {json : Json}
    {constant : Constant} (read : Constant.ofJson json = .ok constant)
    (fits : name ≠ .constant → json ≠ .null) :
    WireNode.nodeConstant location name (some json) = .ok (some constant) := by
  cases name with
  | constant => simp only [WireNode.nodeConstant, Option.getD_some, read]
  | _ =>
    cases json with
    | null => exact absurd rfl (fits nofun)
    | _ => simp only [WireNode.nodeConstant, read]

/-- What a storable node stores of its literal is read as this literal. -/
theorem Storable.exists_constant {id : Nat} {name : NodeName} {constant : Option Constant}
    {children : List Node} {named : List (String × Node)}
    (storable : Storable ⟨id, name, constant, children, named⟩) :
    ∃ stored, ∀ location, wireConstant location name constant = .ok stored ∧
      WireNode.nodeConstant location name stored = .ok constant := by
  cases constant with
  | none =>
    have named : name ≠ .constant := fun literal => storable.literal literal rfl
    refine ⟨none, fun location => ⟨?_, ?_⟩⟩
    · rw [wireConstant, if_neg named]
    · cases name with
      | constant => exact absurd rfl named
      | _ => rfl
  | some constant =>
    obtain ⟨json, written, read⟩ := Constant.exists_json (storable.finite constant rfl)
    refine ⟨some json, fun location => ⟨?_, ?_⟩⟩
    · simp only [wireConstant, Option.getD_some, ite_self, written]
    · refine nodeConstant_of_ofJson read fun other null => storable.notNull other ?_
      rw [null] at read
      exact congrArg some (Except.ok.inj read).symm

mutual

/-- **A storable tree is read back as a copy.** -/
theorem exists_wire : ∀ {node : Node}, node.Everywhere Storable →
    ∃ wire : WireNode, (∀ location, node.toWireAt location = .ok wire) ∧
      ∀ location next, wire.toNodeAt location next = .ok (node.recreate next)
  | ⟨id, name, constant, children, named⟩, storable => by
    obtain ⟨own, positional, keyed⟩ := storable
    obtain ⟨stored, literal⟩ := own.exists_constant
    obtain ⟨wires, written, read⟩ := exists_wires positional
    obtain ⟨entries, writtenNamed, readNamed⟩ := exists_entries keyed
    refine ⟨⟨some (toString id), wireName name, stored, wires, entries⟩, ?_, ?_⟩
    · intro location
      rw [toWireAt, (literal location).1, written, writtenNamed]
      rfl
    · intro location next
      rw [WireNode.toNodeAt, nodeName_wireName own.notUndefined]
      have lifted := StateT.lift_eq_ok.2 ⟨(literal location).2, (rfl : next = next)⟩
      refine StateT.bind_eq_ok.2 ⟨constant, next, lifted, ?_⟩
      refine StateT.bind_eq_ok.2 ⟨next, next + 1, rfl, ?_⟩
      refine StateT.bind_eq_ok.2 ⟨_, _, read location 0 (next + 1), ?_⟩
      exact StateT.bind_eq_ok.2 ⟨_, _, readNamed location _, rfl⟩

theorem exists_wires : ∀ {nodes : List Node}, EverywhereAll Storable nodes →
    ∃ wires : List WireNode, (∀ location index, toWireChildren location index nodes = .ok wires) ∧
      ∀ location index next,
        WireNode.toNodeChildren location index wires next = .ok (recreateAll nodes next)
  | [], _ => ⟨[], fun _ _ => rfl, fun _ _ _ => rfl⟩
  | node :: rest, storable => by
    obtain ⟨wire, written, read⟩ := exists_wire storable.1
    obtain ⟨wires, writtenRest, readRest⟩ := exists_wires storable.2
    refine ⟨wire :: wires, fun location index => ?_, fun location index next => ?_⟩
    · rw [toWireChildren, written, writtenRest]
      rfl
    · refine StateT.bind_eq_ok.2 ⟨_, _, read (location.child index) next, ?_⟩
      exact StateT.bind_eq_ok.2 ⟨_, _, readRest location (index + 1) _, rfl⟩

theorem exists_entries : ∀ {named : List (String × Node)}, EverywhereNamed Storable named →
    ∃ wires : List (String × WireNode), (∀ location, toWireNamed location named = .ok wires) ∧
      ∀ location next, WireNode.toNodeNamed location wires next = .ok (recreateNamed named next)
  | [], _ => ⟨[], fun _ => rfl, fun _ _ => rfl⟩
  | (key, node) :: rest, storable => by
    obtain ⟨wire, written, read⟩ := exists_wire storable.1
    obtain ⟨wires, writtenRest, readRest⟩ := exists_entries storable.2
    refine ⟨(key, wire) :: wires, fun location => ?_, fun location next => ?_⟩
    · rw [toWireNamed, written, writtenRest]
      rfl
    · refine StateT.bind_eq_ok.2 ⟨_, _, read (location.named key) next, ?_⟩
      exact StateT.bind_eq_ok.2 ⟨_, _, readRest location _, rfl⟩

end

end Node

namespace WireNode

/-! ## Trees that were read -/

/-- The literal of a node that was read fits its name. -/
theorem storable_of_nodeConstant {location : Path} {name : Option String} {stored : Option Json}
    {constant : Option Constant}
    (read : nodeConstant location (nodeName name) stored = .ok constant)
    (id : Nat) (children : List Node) (named : List (String × Node)) :
    Node.Storable ⟨id, nodeName name, constant, children, named⟩ where
  literal := by
    intro literal
    rcases nodeConstant_eq_ok read with ⟨value, rfl, -, -⟩ | ⟨named, -, -⟩
    · exact Option.some_ne_none value
    · exact absurd literal named
  notNull := by
    rintro named ⟨⟩
    rcases nodeConstant_eq_ok read with ⟨value, eq, known, own⟩ | ⟨-, eq, -⟩
    · cases eq
      obtain ⟨json, rfl, other⟩ := own named
      exact other (Constant.ofJson_eq_null_iff.1 known)
    · cases eq
  notUndefined := by
    cases name with
    | none => rintro ⟨⟩
    | some name =>
      rw [nodeName]
      split
      · rintro ⟨⟩
      · next other => exact fun same => other (NodeName.function.inj same)
  finite := by
    rintro value ⟨⟩
    rcases nodeConstant_eq_ok read with ⟨literal, eq, known, -⟩ | ⟨-, eq, -⟩
    · cases eq
      exact Constant.finite_of_ofJson known
    · cases eq

mutual

theorem storable_of_toNodeAt : ∀ {wire : WireNode} {location : Path} {next : Nat}
    {result : Node × Nat}, wire.toNodeAt location next = .ok result →
      result.1.Everywhere Node.Storable
  | ⟨_, name, constant, children, named⟩, location, next, result, h => by
    obtain ⟨value, _, literal, h⟩ := StateT.bind_eq_ok.1 h
    obtain ⟨read, -⟩ := StateT.lift_eq_ok.1 literal
    obtain ⟨id, _, -, h⟩ := StateT.bind_eq_ok.1 h
    obtain ⟨nodes, _, positional, h⟩ := StateT.bind_eq_ok.1 h
    obtain ⟨entries, _, keyed, h⟩ := StateT.bind_eq_ok.1 h
    cases h
    exact ⟨storable_of_nodeConstant read id nodes entries,
      storable_of_toNodeChildren positional, storable_of_toNodeNamed keyed⟩

theorem storable_of_toNodeChildren : ∀ {wires : List WireNode} {location : Path}
    {index next : Nat} {result : List Node × Nat},
    toNodeChildren location index wires next = .ok result →
      Node.EverywhereAll Node.Storable result.1
  | [], _, _, _, _, h => by
    cases h
    trivial
  | wire :: wires, location, index, next, result, h => by
    obtain ⟨node, mid, head, h⟩ := StateT.bind_eq_ok.1 h
    obtain ⟨nodes, _, tail, h⟩ := StateT.bind_eq_ok.1 h
    cases h
    exact ⟨storable_of_toNodeAt head, storable_of_toNodeChildren tail⟩

theorem storable_of_toNodeNamed : ∀ {wires : List (String × WireNode)} {location : Path}
    {next : Nat} {result : List (String × Node) × Nat},
    toNodeNamed location wires next = .ok result → Node.EverywhereNamed Node.Storable result.1
  | [], _, _, _, h => by
    cases h
    trivial
  | (key, wire) :: wires, location, next, result, h => by
    obtain ⟨node, mid, head, h⟩ := StateT.bind_eq_ok.1 h
    obtain ⟨named, _, tail, h⟩ := StateT.bind_eq_ok.1 h
    cases h
    exact ⟨storable_of_toNodeAt head, storable_of_toNodeNamed tail⟩

end

end WireNode

/-! ## Round trips -/

namespace WireNode

/-- **Storing and reading undo each other.** A storable tree can be stored, and what is stored is
read as a copy, which differs from the tree in its identities only and is equal to it. Whenever a
stored tree can be read, the tree that is read can be stored, and gives the normal form of the
stored tree. Normalizing twice gives what normalizing once gives. -/
theorem toNode_toWire_roundTrip :
    (∀ tree : Node, tree.Everywhere Node.Storable →
      ∃ wire, tree.toWire = .ok wire ∧ ∀ next,
        wire.toNode next = .ok (tree.recreate next) ∧ tree.Alike (tree.recreate next).1 ∧
          (tree.DistinctKeys → tree.equal (tree.recreate next).1 = true)) ∧
    (∀ (wire : WireNode) (next : Nat) (result : Node × Nat), wire.toNode next = .ok result →
      result.1.toWire = .ok (wire.normalize next).1 ∧ result.2 = (wire.normalize next).2) ∧
    ∀ (wire : WireNode) (next other : Nat),
      (wire.normalize next).1.normalize other = wire.normalize other := by
  refine ⟨fun tree storable => ?_, fun wire next result read => ?_, normalize_normalize⟩
  · obtain ⟨wire, written, read⟩ := Node.exists_wire storable
    refine ⟨wire, written Path.root, fun next => ⟨read Path.root next, ?_, fun distinct => ?_⟩⟩
    · exact Node.alike_recreate tree next
    · have finite := storable.mono fun _ => Node.Storable.finite
      exact Node.equal_of_alike (Node.alike_recreate tree next) distinct finite
  · obtain ⟨tree, rest⟩ := result
    exact toWireAt_of_toNodeAt read Path.root

/-- A tree with a list of numbers among its named operands, and a stored tree that says less than
its normal form: a literal node without a literal, an operator with the literal null, and a whole
number that no signed word holds. -/
theorem toNode_toWire_roundTrip_of_call :
    let list : Node :=
      ⟨3, .constant, some (.list [.float ⟨true, 0⟩, .list [.null, .int 7]]), [], []⟩
    let tree : Node := ⟨1, .function "f", some (.bool true), [⟨2, .undefined, none, [], []⟩],
      [("b", list), ("a", ⟨4, .constant, some .null, [], []⟩)]⟩
    let wire : WireNode := ⟨some "old", some "g", some .null, [⟨none, none, none, [], []⟩],
      [("k", ⟨none, none, some (.number (.ofUInt64 0x8000000000000000)), [], []⟩)]⟩
    (∃ stored, tree.toWire = .ok stored ∧ stored.toNode 7 = .ok (tree.recreate 7) ∧
      tree.equal (tree.recreate 7).1 = true) ∧
    ∃ read, wire.toNode 7 = .ok (read, 10) ∧ read.toWire = .ok (wire.normalize 7).1 := by
  intro list tree wire
  have literal : ∀ id value, value.Finite →
      Node.Everywhere Node.Storable ⟨id, .constant, some value, [], []⟩ := by
    intro id value finite
    refine Node.everywhere_of_leaf ⟨fun _ => nofun, fun other => absurd rfl other, nofun, ?_⟩
      rfl rfl
    rintro _ ⟨⟩
    exact finite
  have placeholder : Node.Everywhere Node.Storable ⟨2, .undefined, none, [], []⟩ :=
    Node.everywhere_of_leaf ⟨nofun, fun _ => nofun, nofun, nofun⟩ rfl rfl
  have storable : tree.Everywhere Node.Storable := by
    refine ⟨⟨nofun, fun _ => nofun, by decide, ?_⟩, ⟨placeholder, trivial⟩, ?_⟩
    · rintro _ ⟨⟩
      trivial
    · exact ⟨literal 3 _ ⟨rfl, ⟨trivial, trivial, trivial⟩, trivial⟩, literal 4 _ trivial, trivial⟩
  have distinct : tree.DistinctKeys :=
    ⟨by decide, ⟨⟨.nil, trivial, trivial⟩, trivial⟩,
      ⟨.nil, trivial, trivial⟩, ⟨.nil, trivial, trivial⟩, trivial⟩
  obtain ⟨copies, normal, -⟩ := toNode_toWire_roundTrip
  obtain ⟨stored, written, read⟩ := copies tree storable
  obtain ⟨copy, -, equal⟩ := read 7
  have loads : ∃ result, wire.toNode 7 = .ok (result, 10) := ⟨_, rfl⟩
  obtain ⟨result, loaded⟩ := loads
  exact ⟨⟨stored, written, copy, equal distinct⟩, result, loaded, (normal wire 7 _ loaded).1⟩

end WireNode

end RuleEditor
