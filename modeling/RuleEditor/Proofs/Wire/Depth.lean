import RuleEditor.Proofs.Json.Decoding
import RuleEditor.Proofs.Json.Reading
import RuleEditor.Proofs.Wire.RoundTrip
import RuleEditor.Wire.Text

/-!
# How deep stored trees nest

A node that is decoded takes one bracket for itself and stands below two for each level above it:
the bracket of the node there, and that of its operands. The lists in a literal take one bracket
each. Hence where `2 * levels + 1` brackets may be opened there is room for `levels` levels of
operands below a node, and for literals whose lists are at most twice as deep.

**On the last level** there is a bracket for the node and none for its collections. A node whose
collections are missing can be read there.
-/

namespace RuleEditor

namespace Constant

mutual

/-- How many lists stand in each other. -/
def depth : Constant → Nat
  | .list items => depthAll items + 1
  | _ => 0

def depthAll : List Constant → Nat
  | [] => 0
  | item :: rest => max (depth item) (depthAll rest)

end

open Json (Source)

mutual

/-- The lists in a literal that was decoded took a bracket each. -/
theorem depth_le_of_json : ∀ {source : Source} {room : Nat} {json : Json} {constant : Constant},
    source.json room = .ok json → ofJson json = .ok constant → constant.depth ≤ room
  | .null, _, _, _, decoded, read => by
    cases decoded
    cases read
    exact Nat.zero_le _
  | .bool _, _, _, _, decoded, read => by
    cases decoded
    cases read
    exact Nat.zero_le _
  | .number numeral, room, json, constant, decoded, read => by
    rw [Source.json] at decoded
    split at decoded
    · next n _ =>
      cases decoded
      cases read
      rw [ofNumber.eq_def]
      split
      · split <;> exact Nat.zero_le _
      · exact Nat.zero_le _
    · cases decoded
  | .string (some _), _, _, _, decoded, read => by
    cases decoded
    cases read
    exact Nat.zero_le _
  | .string none, _, _, _, decoded, _ => by cases decoded
  | .array sources cut, 0, _, _, decoded, _ => by cases decoded
  | .array sources cut, room + 1, _, _, decoded, read => by
    obtain ⟨items, inner, decoded⟩ := Except.bind_eq_ok.1 decoded
    obtain ⟨_, -, eq⟩ := Except.bind_eq_ok.1 decoded
    cases eq
    obtain ⟨constants, below, eq⟩ := Except.bind_eq_ok.1 read
    cases eq
    exact Nat.succ_le_succ (depthAll_le_of_jsonItems inner below)
  | .object members cut, 0, _, _, decoded, _ => by cases decoded
  | .object members cut, room + 1, _, _, decoded, read => by
    obtain ⟨_, -, decoded⟩ := Except.bind_eq_ok.1 decoded
    obtain ⟨_, -, eq⟩ := Except.bind_eq_ok.1 decoded
    cases eq
    cases read
  | .broken _, _, _, _, decoded, _ => by cases decoded

theorem depthAll_le_of_jsonItems : ∀ {sources : List Source} {room : Nat} {items : List Json}
    {constants : List Constant}, Source.jsonItems room sources = .ok items →
      ofJsonAll items = .ok constants → depthAll constants ≤ room
  | [], _, _, _, decoded, read => by
    cases decoded
    cases read
    exact Nat.zero_le _
  | source :: sources, room, _, _, decoded, read => by
    obtain ⟨item, first, decoded⟩ := Except.bind_eq_ok.1 decoded
    obtain ⟨items, later, eq⟩ := Except.bind_eq_ok.1 decoded
    cases eq
    obtain ⟨constant, head, read⟩ := Except.bind_eq_ok.1 read
    obtain ⟨constants, tail, eq⟩ := Except.bind_eq_ok.1 read
    cases eq
    exact Nat.max_le.2 ⟨depth_le_of_json first head, depthAll_le_of_jsonItems later tail⟩

end

mutual

/-- Where there are brackets enough for its lists, a literal that was stored is decoded. -/
theorem json_source : ∀ {constant : Constant} {json : Json} {room : Nat},
    constant.toJson = .ok json → constant.depth ≤ room → json.source.json room = .ok json
  | .null, _, _, stored, _ => by
    cases stored
    rfl
  | .bool _, _, _, stored, _ => by
    cases stored
    rfl
  | .int n, _, _, stored, _ => by
    cases stored
    simp only [Json.source, Source.json, Json.Number.value?_numeral]
  | .float x, _, _, stored, _ => by
    rw [toJson] at stored
    split at stored
    · cases stored
      simp only [Json.source, Source.json, Json.Number.value?_numeral]
    · cases stored
  | .string _, _, _, stored, _ => by
    cases stored
    rfl
  | .list items, _, 0, _, shallow => absurd shallow (Nat.not_succ_le_zero _)
  | .list items, _, room + 1, stored, shallow => by
    obtain ⟨jsons, inner, eq⟩ := Except.bind_eq_ok.1 stored
    cases eq
    have decoded := jsonItems_source inner (Nat.le_of_succ_le_succ shallow)
    exact Except.bind_eq_ok.2 ⟨jsons, decoded, rfl⟩

theorem jsonItems_source : ∀ {items : List Constant} {jsons : List Json} {room : Nat},
    toJsonAll items = .ok jsons → depthAll items ≤ room →
      Source.jsonItems room (Json.sourceItems jsons) = .ok jsons
  | [], _, _, stored, _ => by
    cases stored
    rfl
  | item :: rest, _, room, stored, shallow => by
    obtain ⟨json, first, stored⟩ := Except.bind_eq_ok.1 stored
    obtain ⟨jsons, later, eq⟩ := Except.bind_eq_ok.1 stored
    cases eq
    obtain ⟨here, below⟩ := Nat.max_le.1 shallow
    refine Except.bind_eq_ok.2 ⟨json, json_source first here, ?_⟩
    exact Except.bind_eq_ok.2 ⟨jsons, jsonItems_source later below, rfl⟩

end

end Constant

namespace Node

/-! ## Levels -/

mutual

/-- The number of levels of the tree. -/
def height : Node → Nat
  | ⟨_, _, _, children, named⟩ => max (heightAll children) (heightNamed named) + 1

def heightAll : List Node → Nat
  | [] => 0
  | node :: rest => max (height node) (heightAll rest)

def heightNamed : List (String × Node) → Nat
  | [] => 0
  | (_, node) :: rest => max (height node) (heightNamed rest)

end

theorem heightAll_le_iff {nodes : List Node} {levels : Nat} :
    heightAll nodes ≤ levels ↔ ∀ node ∈ nodes, node.height ≤ levels := by
  induction nodes with
  | nil => simp [heightAll]
  | cons node rest ih => rw [heightAll, Nat.max_le, ih, List.forall_mem_cons]

theorem heightNamed_le_iff {named : List (String × Node)} {levels : Nat} :
    heightNamed named ≤ levels ↔ ∀ entry ∈ named, entry.2.height ≤ levels := by
  induction named with
  | nil => simp [heightNamed]
  | cons entry rest ih => rw [heightNamed, Nat.max_le, ih, List.forall_mem_cons]

/-- The node and its operands nest no deeper than what is read where `2 * levels + 1` brackets may
be opened. -/
def Within : Nat → Node → Prop
  | 0, node => (∀ constant ∈ node.constant, constant.depth ≤ 0) ∧
      node.children = [] ∧ node.named = []
  | levels + 1, node => (∀ constant ∈ node.constant, constant.depth ≤ 2 * levels + 2) ∧
      (∀ child ∈ node.children, child.Within levels) ∧
      ∀ entry ∈ node.named, entry.2.Within levels

theorem Within.height_le : ∀ {levels : Nat} {node : Node}, node.Within levels →
    node.height ≤ levels + 1
  | 0, ⟨_, _, _, _, _⟩, within => by
    obtain ⟨-, rfl, rfl⟩ := within
    exact Nat.le_refl 1
  | levels + 1, ⟨_, _, _, children, named⟩, within => by
    obtain ⟨-, positional, keyed⟩ := within
    refine Nat.succ_le_succ (Nat.max_le.2 ⟨heightAll_le_iff.2 ?_, heightNamed_le_iff.2 ?_⟩)
    · exact fun child mem => (positional child mem).height_le
    · exact fun entry mem => (keyed entry mem).height_le

/-- No two operands of the node have one name. -/
def OwnDistinctKeys (node : Node) : Prop := (node.named.map Prod.fst).Nodup

mutual

theorem distinctKeys_iff : ∀ node : Node, node.DistinctKeys ↔ node.Everywhere OwnDistinctKeys
  | ⟨_, _, _, children, named⟩ =>
    and_congr Iff.rfl (and_congr (distinctKeysAll_iff children) (distinctKeysNamed_iff named))

theorem distinctKeysAll_iff :
    ∀ nodes : List Node, DistinctKeysAll nodes ↔ EverywhereAll OwnDistinctKeys nodes
  | [] => Iff.rfl
  | node :: rest => and_congr (distinctKeys_iff node) (distinctKeysAll_iff rest)

theorem distinctKeysNamed_iff : ∀ named : List (String × Node),
    DistinctKeysNamed named ↔ EverywhereNamed OwnDistinctKeys named
  | [] => Iff.rfl
  | (_, node) :: rest => and_congr (distinctKeys_iff node) (distinctKeysNamed_iff rest)

end

end Node

namespace WireNode

open Json (Source Fault)

/-! ## Decoded nodes -/

variable {room : Nat} {source : Source} {wire : WireNode}

/-- What a stored node is decoded from: its literal from a value of any shape, its operands from
what decodes operands. -/
theorem record_fields_eq_ok {positional : Source → Except Fault (List WireNode)}
    {keyed : Source → Except Fault (List (String × WireNode))} {P : List WireNode → Prop}
    {Q : List (String × WireNode) → Prop} (noChildren : P []) (noNamed : Q [])
    (children : ∀ source wires, positional source = .ok wires → P wires)
    (named : ∀ source wires, keyed source = .ok wires → Q wires)
    (decoded : source.record (fields room positional keyed) blank = .ok wire) :
    (∀ json ∈ wire.constant, ∃ source : Source, source.json room = .ok json) ∧
      P wire.children ∧ Q wire.named := by
  have noLiteral : ∀ json ∈ blank.constant, ∃ source : Source, source.json room = .ok json := by
    rintro json ⟨⟩
  refine Source.record_keeps (P := fun wire : WireNode =>
    (∀ json ∈ wire.constant, ∃ source : Source, source.json room = .ok json) ∧
      P wire.children ∧ Q wire.named) ⟨noLiteral, noChildren, noNamed⟩ ?_ decoded
  simp only [fields, List.forall_mem_cons]
  refine ⟨?_, ?_, ?_, ?_, ?_, nofun⟩
  · exact Source.field_keeps _ fun _ _ _ _ own => own
  · exact Source.field_keeps _ fun _ _ _ _ own => own
  · refine Source.field_keeps _ fun source value read record own => ⟨?_, own.2⟩
    intro json some
    cases some
    exact ⟨source, Source.optional_eq_some read⟩
  · exact Source.field_keeps _ fun source value read _ own =>
      ⟨own.1, children source value read, own.2.2⟩
  · exact Source.field_keeps _ fun source value read _ own =>
      ⟨own.1, own.2.1, named source value read⟩

/-- On the last level there are no operands. -/
theorem decode_one_eq_ok (decoded : decode 1 source = .ok wire) :
    (∀ json ∈ wire.constant, ∃ source : Source, source.json 0 = .ok json) ∧
      wire.children = [] ∧ wire.named = [] := by
  refine record_fields_eq_ok (P := (· = [])) (Q := (· = [])) rfl rfl ?_ ?_ decoded
  · intro source wires read
    cases source <;> cases read
  · intro source wires read
    cases source <;> cases read

theorem decode_eq_ok (decoded : decode (room + 2) source = .ok wire) :
    (∀ json ∈ wire.constant, ∃ source : Source, source.json (room + 1) = .ok json) ∧
      (∀ child ∈ wire.children, ∃ source, decode room source = .ok child) ∧
      (wire.named.map Prod.fst).Nodup ∧
      ∀ entry ∈ wire.named, ∃ source, decode room source = .ok entry.2 :=
  record_fields_eq_ok
    (P := fun wires => ∀ child ∈ wires, ∃ source, decode room source = .ok child)
    (Q := fun wires => (wires.map Prod.fst).Nodup ∧
      ∀ entry ∈ wires, ∃ source, decode room source = .ok entry.2)
    nofun ⟨.nil, nofun⟩ (fun _ _ => Source.list_eq_ok) (fun _ _ => Source.entries_eq_ok) decoded

/-! ## Nodes that were read -/

theorem exists_of_mem_toNodeChildren {location : Path} :
    ∀ {wires : List WireNode} {index next : Nat} {result : List Node × Nat},
      toNodeChildren location index wires next = .ok result → ∀ node ∈ result.1,
        ∃ wire ∈ wires, ∃ location next rest, wire.toNodeAt location next = .ok (node, rest)
  | [], _, _, _, read => by
    cases read
    exact nofun
  | wire :: wires, index, next, result, read => by
    obtain ⟨node, mid, head, read⟩ := StateT.bind_eq_ok.1 read
    obtain ⟨nodes, _, tail, eq⟩ := StateT.bind_eq_ok.1 read
    cases eq
    refine List.forall_mem_cons.2 ⟨⟨wire, List.mem_cons_self, _, _, _, head⟩, fun node mem => ?_⟩
    obtain ⟨wire', mem', origin⟩ := exists_of_mem_toNodeChildren tail node mem
    exact ⟨wire', List.mem_cons_of_mem _ mem', origin⟩

theorem exists_of_mem_toNodeNamed {location : Path} :
    ∀ {wires : List (String × WireNode)} {next : Nat} {result : List (String × Node) × Nat},
      toNodeNamed location wires next = .ok result →
        result.1.map Prod.fst = wires.map Prod.fst ∧ ∀ entry ∈ result.1,
          ∃ wire ∈ wires, ∃ location next rest, wire.2.toNodeAt location next = .ok (entry.2, rest)
  | [], _, _, read => by
    cases read
    exact ⟨rfl, nofun⟩
  | (key, wire) :: wires, next, result, read => by
    obtain ⟨node, mid, head, read⟩ := StateT.bind_eq_ok.1 read
    obtain ⟨named, _, tail, eq⟩ := StateT.bind_eq_ok.1 read
    cases eq
    obtain ⟨keys, origins⟩ := exists_of_mem_toNodeNamed tail
    refine ⟨congrArg (key :: ·) keys, List.forall_mem_cons.2 ⟨?_, fun entry mem => ?_⟩⟩
    · exact ⟨(key, wire), List.mem_cons_self, _, _, _, head⟩
    · obtain ⟨wire', mem', origin⟩ := origins entry mem
      exact ⟨wire', List.mem_cons_of_mem _ mem', origin⟩

theorem depth_le_of_nodeConstant {location : Path} {name : NodeName} {stored : Option Json}
    {value : Option Constant} (read : nodeConstant location name stored = .ok value)
    (decoded : ∀ json ∈ stored, ∃ source : Source, source.json room = .ok json) :
    ∀ constant ∈ value, constant.depth ≤ room := by
  intro constant some
  rcases nodeConstant_eq_ok read with ⟨literal, rfl, known, -⟩ | ⟨-, rfl, -⟩
  · cases some
    cases stored with
    | none =>
      cases known
      exact Nat.zero_le _
    | some json =>
      obtain ⟨source, decoded⟩ := decoded json rfl
      exact Constant.depth_le_of_json decoded known
  · cases some

/-- **A tree that was decoded and read** fits the brackets that could be opened, and has no key
twice at any node. -/
theorem within_of_decode : ∀ (levels : Nat) {source : Source} {wire : WireNode},
    decode (2 * levels + 1) source = .ok wire →
      ∀ {location : Path} {next rest : Nat} {node : Node},
        wire.toNodeAt location next = .ok (node, rest) → node.Within levels ∧ node.DistinctKeys
  | levels, source, ⟨id, name, constant, children, named⟩, decoded, location, next, rest, node,
      read => by
    obtain ⟨value, _, literal, read⟩ := StateT.bind_eq_ok.1 read
    obtain ⟨literal, -⟩ := StateT.lift_eq_ok.1 literal
    obtain ⟨fresh, _, -, read⟩ := StateT.bind_eq_ok.1 read
    obtain ⟨nodes, _, positional, read⟩ := StateT.bind_eq_ok.1 read
    obtain ⟨entries, _, keyed, eq⟩ := StateT.bind_eq_ok.1 read
    cases eq
    rw [Node.distinctKeys_iff, Node.everywhere_iff]
    cases levels with
    | zero =>
      obtain ⟨json, rfl, rfl⟩ := decode_one_eq_ok decoded
      cases positional
      cases keyed
      exact ⟨⟨depth_le_of_nodeConstant literal json, rfl, rfl⟩, .nil, nofun, nofun⟩
    | succ levels =>
      obtain ⟨json, decodedAll, keys, decodedNamed⟩ := decode_eq_ok decoded
      have child (node : Node) (mem : node ∈ nodes) : node.Within levels ∧ node.DistinctKeys := by
        obtain ⟨wire, stored, _, _, _, origin⟩ := exists_of_mem_toNodeChildren positional node mem
        obtain ⟨source, decoded⟩ := decodedAll wire stored
        exact within_of_decode levels decoded origin
      obtain ⟨sameKeys, origins⟩ := exists_of_mem_toNodeNamed keyed
      have entry (entry : String × Node) (mem : entry ∈ entries) :
          entry.2.Within levels ∧ entry.2.DistinctKeys := by
        obtain ⟨wire, stored, _, _, _, origin⟩ := origins entry mem
        obtain ⟨source, decoded⟩ := decodedNamed wire stored
        exact within_of_decode levels decoded origin
      have distinct : (entries.map Prod.fst).Nodup := by
        rw [sameKeys]
        exact keys
      refine ⟨⟨depth_le_of_nodeConstant literal json, ?_, ?_⟩, distinct, ?_, ?_⟩
      · exact fun node mem => (child node mem).1
      · exact fun member mem => (entry member mem).1
      · exact fun node mem => (Node.distinctKeys_iff node).1 (child node mem).2
      · exact fun member mem => (Node.distinctKeys_iff member.2).1 (entry member mem).2

end WireNode

end RuleEditor
