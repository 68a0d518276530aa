import RuleEditor.Proofs.Action
import RuleEditor.Proofs.Path.Walk

/-!
# Literals that cannot be stored or read

**What is to blame.** JSON has no infinite numbers and none that are not numbers, and no literal
expresses a JSON object. Within a literal all that is to blame is listed from left to right, at any
depth of lists (`Constant.unwritable`, `Json.objects`); what is inside an object is not looked at.

**Where** (`OperandTree.Searches`). Storing and reading take a node first and then its operands, and
stop at the first failure. What they fail with therefore is what there is to blame at the first
node, in pre-order, that has anything.
-/

namespace RuleEditor

open OperandTree

/-! ## Literals -/

namespace Constant

mutual

/-- The numbers in a literal that JSON cannot write. -/
def unwritable : Constant → List Binary64
  | .float x => if x.isFinite then [] else [x]
  | .list items => unwritableAll items
  | _ => []

def unwritableAll : List Constant → List Binary64
  | [] => []
  | item :: rest => unwritable item ++ unwritableAll rest

end

mutual

theorem failure?_toJson : ∀ constant : Constant,
    failure? constant.toJson = constant.unwritable.head?
  | .float x => by
    by_cases finite : x.isFinite = true <;>
      simp [toJson, Json.Number.ofBinary64?, unwritable, finite, failure?]
  | .list items => by
    rw [toJson, failure?_bind_pure, failure?_toJsonAll items, unwritable]
  | .null => rfl
  | .bool _ => rfl
  | .int _ => rfl
  | .string _ => rfl

theorem failure?_toJsonAll : ∀ items : List Constant,
    failure? (toJsonAll items) = (unwritableAll items).head?
  | [] => rfl
  | item :: rest => by
    rw [toJsonAll, unwritableAll, List.head?_append, ← failure?_toJson item,
      ← failure?_toJsonAll rest]
    exact failure?_bind fun _ => failure?_bind_pure

end

end Constant

namespace Json

mutual

/-- The objects in a value that are in no other object. -/
def objects : Json → List Json
  | .object members => [.object members]
  | .array items => objectsAll items
  | _ => []

def objectsAll : List Json → List Json
  | [] => []
  | item :: rest => objects item ++ objectsAll rest

end

end Json

namespace Constant

mutual

theorem failure?_ofJson : ∀ json : Json, failure? (ofJson json) = json.objects.head?
  | .array items => by
    rw [ofJson, failure?_bind_pure, failure?_ofJsonAll items, Json.objects]
  | .null => rfl
  | .bool _ => rfl
  | .number _ => rfl
  | .string _ => rfl
  | .object _ => rfl

theorem failure?_ofJsonAll : ∀ items : List Json,
    failure? (ofJsonAll items) = (Json.objectsAll items).head?
  | [] => rfl
  | item :: rest => by
    rw [ofJsonAll, Json.objectsAll, List.head?_append, ← failure?_ofJson item,
      ← failure?_ofJsonAll rest]
    exact failure?_bind fun _ => failure?_bind_pure

end

end Constant

/-! ## The text of a location -/

namespace Path

theorem segmentsText_concat (path : Path) (segment : Segment) :
    segmentsText (path ++ [segment]) = segmentsText path ++ "." ++ segment.text := by
  induction path with
  | nil => simp [segmentsText]
  | cons first rest ih =>
    rw [List.cons_append, segmentsText, ih, segmentsText]
    simp [String.append_assoc]

theorem text_child (path : Path) (index : Nat) :
    (path.child index).text = path.text ++ ".children." ++ toString index := by
  have point : ".children." = "." ++ "children." := by decide
  rw [text, child, segmentsText_concat, text, Segment.text, point]
  simp only [String.append_assoc]

theorem text_named (path : Path) (key : String) :
    (path.named key).text = path.text ++ ".namedChildren." ++ key := by
  have point : ".namedChildren." = "." ++ "namedChildren." := by decide
  rw [text, named, segmentsText_concat, text, Segment.text, point]
  simp only [String.append_assoc]

end Path

/-! ## Storing -/

namespace Node

/-- The numbers in the literal of the node that JSON cannot write. -/
def unwritable (node : Node) : List Binary64 := (node.constant.map Constant.unwritable).getD []

theorem failure?_wireConstant (location : Path) (name : NodeName) (constant : Option Constant) :
    failure? (wireConstant location name constant) =
      ((constant.map Constant.unwritable).getD []).head?.map
        fun x => ⟨location, x.displayText⟩ := by
  cases constant with
  | none => cases name <;> rfl
  | some constant =>
    simp only [wireConstant, ite_self, Option.map_some, Option.getD_some,
      ← constant.failure?_toJson]
    cases constant.toJson <;> rfl

theorem searches_toWireAt : Searches (fun location node => failure? (toWireAt location node))
    fun location node => node.unwritable.head?.map fun x => ⟨location, x.displayText⟩ := by
  refine .of_steps (fun location index nodes => failure? (toWireChildren location index nodes))
    (fun location named => failure? (toWireNamed location named))
    (fun location node => ?_) (fun _ _ => rfl) (fun location index node rest => ?_) (fun _ => rfl)
    fun location key node rest => ?_
  · obtain ⟨id, name, constant, children, named⟩ := node
    rw [unwritable, ← failure?_wireConstant location name]
    exact failure?_bind fun _ => failure?_bind fun _ => failure?_bind_pure
  · exact failure?_bind fun _ => failure?_bind_pure
  · exact failure?_bind fun _ => failure?_bind_pure

end Node

/-! ## Reading -/

namespace WireNode

instance : OperandTree WireNode where
  children := children
  named := named
  smaller := by
    refine ⟨sizeOf, ?_⟩
    rintro ⟨id, name, constant, children, named⟩
    refine ⟨fun child mem => ?_, ?_⟩
    · have less : sizeOf child < sizeOf children := List.sizeOf_lt_of_mem mem
      simp only [mk.sizeOf_spec]
      omega
    · rintro ⟨key, child⟩ mem
      have less : sizeOf (key, child) < sizeOf named := List.sizeOf_lt_of_mem mem
      simp only [mk.sizeOf_spec, Prod.mk.sizeOf_spec] at less ⊢
      omega

/-- The objects in the literal of the stored node. -/
def objects (wire : WireNode) : List Json := (wire.constant.map Json.objects).getD []

theorem failure?_nodeConstant (location : Path) (name : NodeName) (constant : Option Json) :
    failure? (nodeConstant location name constant) =
      ((constant.map Json.objects).getD []).head?.map fun json => ⟨location, json.text⟩ := by
  have literal (json : Json) : failure? (nodeConstant location .constant (some json)) =
      json.objects.head?.map fun json => ⟨location, json.text⟩ := by
    rw [← Constant.failure?_ofJson]
    simp only [nodeConstant, Option.getD_some]
    cases Constant.ofJson json <;> rfl
  cases constant with
  | none => cases name <;> rfl
  | some json =>
    cases name with
    | constant => exact literal json
    | _ => cases json <;> first | rfl | exact literal _

mutual

/-- What reading the node at `location` fails with, if it does. -/
def failureAt? (location : Path) : WireNode → Option UnsupportedConstant
  | ⟨_, name, constant, children, named⟩ =>
    (failure? (nodeConstant location (nodeName name) constant)).or
      ((failureChildren? location 0 children).or (failureNamed? location named))

def failureChildren? (location : Path) (index : Nat) : List WireNode → Option UnsupportedConstant
  | [] => none
  | child :: rest =>
    (failureAt? (location.child index) child).or (failureChildren? location (index + 1) rest)

def failureNamed? (location : Path) : List (String × WireNode) → Option UnsupportedConstant
  | [] => none
  | (key, child) :: rest =>
    (failureAt? (location.named key) child).or (failureNamed? location rest)

end

mutual

/-- What reading fails with does not depend on the identities that it takes. -/
theorem fails_toNodeAt : ∀ (wire : WireNode) (location : Path),
    Fails (toNodeAt location wire) (failureAt? location wire)
  | ⟨_, name, constant, children, named⟩, location =>
    (Fails.lift (nodeConstant location (nodeName name) constant)).bind fun _ =>
      (Fails.modifyGet fun next => (next, next + 1)).bind fun _ =>
        (fails_toNodeChildren children location 0).bind fun _ =>
          (fails_toNodeNamed named location).bind_pure _

theorem fails_toNodeChildren : ∀ (wires : List WireNode) (location : Path) (index : Nat),
    Fails (toNodeChildren location index wires) (failureChildren? location index wires)
  | [], _, _ => .pure []
  | child :: rest, location, index =>
    (fails_toNodeAt child (location.child index)).bind fun _ =>
      (fails_toNodeChildren rest location (index + 1)).bind_pure _

theorem fails_toNodeNamed : ∀ (named : List (String × WireNode)) (location : Path),
    Fails (toNodeNamed location named) (failureNamed? location named)
  | [], _ => .pure []
  | (key, child) :: rest, location =>
    (fails_toNodeAt child (location.named key)).bind fun _ =>
      (fails_toNodeNamed rest location).bind_pure _

end

theorem searches_failureAt? : Searches failureAt?
    fun location wire => wire.objects.head?.map fun json => ⟨location, json.text⟩ := by
  refine .of_steps failureChildren? failureNamed? (fun location wire => ?_) (fun _ _ => rfl)
    (fun _ _ _ _ => rfl) (fun _ => rfl) fun _ _ _ _ => rfl
  obtain ⟨id, name, constant, children, named⟩ := wire
  rw [objects, ← failure?_nodeConstant location (nodeName name)]
  rfl

end WireNode

/-! ## The first literal to blame -/

section Blame

variable {τ β : Type} [OperandTree τ]

/-- The first node, in pre-order, with anything to blame is at the location, and this is the first
of what is to blame there. -/
structure FirstBlamed (blamed : τ → List β) (root : τ) (location : Path) (value : β) : Prop where
  here : ∃ node, at? root location = some node ∧ (blamed node).head? = some value
  silent : ∀ other node, Before root other location → at? root other = some node →
    blamed node = []

variable {blamed : τ → List β} {shown : β → String} {root : τ}
  {search : Path → τ → Option UnsupportedConstant}

theorem search_eq_some_iff
    (searches : Searches search fun location node =>
      (blamed node).head?.map fun value => ⟨location, shown value⟩)
    (distinct : Everywhere OwnDistinctKeys root) {error : UnsupportedConstant} :
    search Path.root root = some error ↔
      ∃ value, FirstBlamed blamed root error.location value ∧ error.value = shown value := by
  rw [searches.eq_some_iff distinct]
  constructor
  · rintro ⟨path, ⟨node, there, given⟩, silent⟩
    obtain ⟨value, first, rfl⟩ := Option.map_eq_some_iff.1 given
    refine ⟨value, ⟨⟨node, there, first⟩, fun other node' ahead there' => ?_⟩, rfl⟩
    simpa using silent other node' ahead there'
  · rintro ⟨value, ⟨⟨node, there, first⟩, silent⟩, same⟩
    refine ⟨error.location, ⟨node, there, ?_⟩, fun other node' ahead there' => ?_⟩
    · rw [first, Option.map_some, ← same]
      rfl
    · rw [silent other node' ahead there']
      rfl

theorem exists_search_iff
    (searches : Searches search fun location node =>
      (blamed node).head?.map fun value => ⟨location, shown value⟩)
    (distinct : Everywhere OwnDistinctKeys root) :
    (∃ error, search Path.root root = some error) ↔
      ∃ path node, at? root path = some node ∧ blamed node ≠ [] := by
  rw [← Option.isSome_iff_exists, ← Option.ne_none_iff_isSome, Ne,
    searches.eq_none_iff distinct]
  simp

end Blame

namespace UnsupportedConstant

/-- **Storing fails if and only if a literal in the tree has a number that JSON cannot write, and
reading if and only if one has an object.** The error tells the first node with such a literal, in
pre-order, and the first such number or object in it; the text of the location is put together
segment by segment. -/
theorem first_blamed {root : Node} {wire : WireNode} (distinct : root.DistinctKeys)
    (distinctWire : Everywhere OwnDistinctKeys wire) (next : Nat) :
    ((∃ error, root.toWire = .error error) ↔
      ∃ path node, at? root path = some node ∧ node.unwritable ≠ []) ∧
    (∀ error : UnsupportedConstant, root.toWire = .error error ↔
      ∃ x, FirstBlamed Node.unwritable root error.location x ∧ error.value = x.displayText) ∧
    ((∃ error, wire.toNode next = .error error) ↔
      ∃ path node, at? wire path = some node ∧ node.objects ≠ []) ∧
    (∀ error : UnsupportedConstant, wire.toNode next = .error error ↔
      ∃ json, FirstBlamed WireNode.objects wire error.location json ∧ error.value = json.text) ∧
    Path.root.text = "root" ∧
    (∀ path index, (Path.child path index).text = path.text ++ ".children." ++ toString index) ∧
    ∀ path key, (Path.named path key).text = path.text ++ ".namedChildren." ++ key := by
  have distinct : Everywhere OwnDistinctKeys root :=
    Node.operandTree_everywhere ((Node.distinctKeys_iff root).1 distinct)
  have stored (error : UnsupportedConstant) : root.toWire = .error error ↔
      failure? (root.toWireAt Path.root) = some error := failure?_eq_some_iff.symm
  have read (error : UnsupportedConstant) : wire.toNode next = .error error ↔
      wire.failureAt? Path.root = some error := by
    rw [← wire.fails_toNodeAt Path.root next]
    exact failure?_eq_some_iff.symm
  refine ⟨?_, fun error => ?_, ?_, fun error => ?_, rfl, Path.text_child, Path.text_named⟩
  · rw [exists_congr stored, exists_search_iff Node.searches_toWireAt distinct]
  · rw [stored, search_eq_some_iff Node.searches_toWireAt distinct]
  · rw [exists_congr read, exists_search_iff WireNode.searches_failureAt? distinctWire]
  · rw [read, search_eq_some_iff WireNode.searches_failureAt? distinctWire]

/-- Two literals to blame, the first of them with two numbers in lists, and one with two objects. -/
theorem first_blamed_in_lists :
    let listed : Constant :=
      .list [.float .zero, .list [.float (.infinity true)], .float .nan]
    let root : Node := ⟨0, .function ">", none,
      [⟨1, .constant, some listed, [], []⟩, ⟨2, .constant, some (.float .nan), [], []⟩], []⟩
    let stored : WireNode := ⟨none, none,
      some (.array [.array [.object []], .object [("a", .null)]]), [], []⟩
    let wire : WireNode := ⟨none, some "=", none, [], [("list", stored)]⟩
    root.DistinctKeys ∧ Everywhere OwnDistinctKeys wire ∧
      root.toWire = .error ⟨[.child 0], "-inf"⟩ ∧
      (∃ x, FirstBlamed Node.unwritable root [.child 0] x ∧ "-inf" = x.displayText) ∧
      wire.toNode 0 = .error ⟨[.named "list"], "\x7b\x7d"⟩ ∧
      ∃ json, FirstBlamed WireNode.objects wire [.named "list"] json ∧ "\x7b\x7d" = json.text := by
  intro listed root stored wire
  have distinct : root.DistinctKeys := by
    simp [root, Node.DistinctKeys, Node.DistinctKeysAll, Node.DistinctKeysNamed]
  have leaf : Everywhere OwnDistinctKeys stored :=
    everywhere_of_operands List.nodup_nil nofun nofun
  have distinctWire : Everywhere OwnDistinctKeys wire :=
    everywhere_of_operands (List.nodup_singleton "list") nofun (List.forall_mem_singleton.2 leaf)
  have storing : root.toWire = .error ⟨[.child 0], "-inf"⟩ := by rfl
  have reading : wire.toNode 0 = .error ⟨[.named "list"], "\x7b\x7d"⟩ := by rfl
  obtain ⟨-, numbers, -, objects, -⟩ := first_blamed distinct distinctWire 0
  exact ⟨distinct, distinctWire, storing, (numbers _).1 storing, reading, (objects _).1 reading⟩

end UnsupportedConstant

end RuleEditor
