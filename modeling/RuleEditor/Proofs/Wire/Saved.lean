import RuleEditor.Proofs.Wire.Depth

/-!
# Loading what was saved

A text that was loaded can be saved, and what is saved is loaded as a copy, unless the tree uses up
all levels that can be loaded. A node on the last level is loaded if its collections are missing,
but is saved with both of them, and so with a bracket more than can be opened.

**Saving.** `Node.Reloads` relates a tree to the stored form that is written for it where
`2 * levels + 1` brackets may be opened: a tree of at most `levels` levels is decoded as a copy, a
higher one is malformed. Every tree that fits the brackets does so (`Node.exists_reloads`), by
induction on the levels.
-/

namespace RuleEditor

open Json (Source Fault)

namespace WireNode

/-! ## Nodes -/

section Record

variable (room : Nat) (positional : Source → Except Fault (List WireNode))
  (keyed : Source → Except Fault (List (String × WireNode)))

/-- The members of a written node, each with the field that reads it. -/
def parts : WireNode → List (Source.Field WireNode × Source)
  | ⟨id, name, constant, children, named⟩ =>
    let field (index : Fin 5) := (fields room positional keyed)[index]
    id.elim [] (fun id => [(field 0, .string (some id))])
      ++ [(field 1, name.elim .null fun name => .string (some name))]
      ++ constant.elim [] (fun json => [(field 2, json.source)])
      ++ [(field 3, .array (Json.sourceItems (toJsonAll children)) none),
        (field 4, .object (Json.sourceMembers (toJsonNamed named)) none)]

theorem source_toJson : ∀ wire : WireNode, wire.toJson.source =
    .object ((parts room positional keyed wire).map fun part => (some part.1.key, part.2)) none
  | ⟨id, name, constant, _, _⟩ => by
    cases id <;> cases name <;> cases constant <;> rfl

/-- A written node is decoded from its literal, its operands and its named operands in turn. -/
theorem record_toJson (id name : Option String) (constant : Option Json)
    (children : List WireNode) (named : List (String × WireNode)) :
    (toJson ⟨id, name, constant, children, named⟩).source.record
        (fields room positional keyed) blank =
      (do
        let constant ← constant.elim (.ok none) fun json => json.source.optional (Source.json room)
        let children ← positional (.array (Json.sourceItems (toJsonAll children)) none)
        let named ← keyed (.object (Json.sourceMembers (toJsonNamed named)) none)
        return ⟨id, name, constant, children, named⟩) := by
  have free : ∀ field ∈ fields room positional keyed, field.required = false := by
    simp [fields, Source.field]
  have known : ∀ part ∈ parts room positional keyed ⟨id, name, constant, children, named⟩,
      (fields room positional keyed).find? (·.key = part.1.key) = some part.1 := by
    cases id <;> cases constant <;> simp [parts, fields, Source.field]
  have distinct : ((parts room positional keyed ⟨id, name, constant, children, named⟩).map
      (·.1.key)).Nodup := by
    cases id <;> cases constant <;> simp [parts, fields, Source.field]
  rw [source_toJson room positional keyed, Source.record_of_parts blank free known distinct]
  cases id <;> cases name <;> cases constant <;>
  · simp only [parts, fields, Option.elim_none, Option.elim_some, List.nil_append, List.cons_append,
      Fin.getElem_fin, Fin.isValue, Fin.coe_ofNat_eq_mod, Nat.reduceMod, List.getElem_cons_zero,
      List.getElem_cons_succ, Source.readParts_field]
    rfl

end Record

/-- A missing literal is read as null, and null as a missing literal. -/
theorem nodeConstant_null (location : Path) (name : NodeName) :
    nodeConstant location name (some .null) = nodeConstant location name none := by
  cases name <;> rfl

end WireNode

namespace Node

/-! ## Literals -/

theorem exists_toJson_of_wireConstant {location : Path} {name : NodeName}
    {constant : Option Constant} {json : Json}
    (stored : wireConstant location name constant = .ok (some json)) :
    ∃ value : Constant, value.toJson = .ok json ∧ (value ∈ constant ∨ value = .null) := by
  unfold wireConstant at stored
  dsimp only at stored
  split at stored
  · cases stored
  · next value own =>
    split at stored
    · next written =>
      cases stored
      refine ⟨value, written, ?_⟩
      split at own
      · cases constant with
        | none => exact Or.inr (Option.some.inj own).symm
        | some other => exact Or.inl own
      · exact Or.inl own
    · cases stored

/-- What is stored of the literal is decoded and read as the literal. -/
theorem Storable.exists_literal {id : Nat} {name : NodeName} {constant : Option Constant}
    {children : List Node} {named : List (String × Node)} {room : Nat}
    (storable : Storable ⟨id, name, constant, children, named⟩)
    (shallow : ∀ value ∈ constant, value.depth ≤ room) :
    ∃ stored again, (∀ location, wireConstant location name constant = .ok stored) ∧
      stored.elim (.ok none) (fun json => json.source.optional (Source.json room)) = .ok again ∧
      ∀ location, WireNode.nodeConstant location name again = .ok constant := by
  obtain ⟨stored, literal⟩ := storable.exists_constant
  cases stored with
  | none =>
    exact ⟨none, none, fun location => (literal location).1, rfl,
      fun location => (literal location).2⟩
  | some json =>
    by_cases null : json = .null
    · refine ⟨some json, none, fun location => (literal location).1, ?_, fun location => ?_⟩
      · rw [null]
        rfl
      · rw [← WireNode.nodeConstant_null, ← null]
        exact (literal location).2
    · obtain ⟨value, written, own⟩ := exists_toJson_of_wireConstant (literal Path.root).1
      have fits : value.depth ≤ room := by
        rcases own with own | rfl
        · exact shallow value own
        · exact Nat.zero_le _
      have solid : json.source ≠ .null := by
        cases json with
        | null => exact absurd rfl null
        | _ => exact nofun
      refine ⟨some json, some json, fun location => (literal location).1, ?_,
        fun location => (literal location).2⟩
      rw [Option.elim_some, Source.optional_of_ne_null solid, Constant.json_source written fits]
      rfl

/-! ## Trees -/

/-- The tree is stored as `wire`, which is decoded where `2 * levels + 1` brackets may be opened: as
a copy if the tree has at most `levels` levels, and otherwise not at all. -/
structure Reloads (levels : Nat) (tree : Node) (wire : WireNode) : Prop where
  stored : ∀ location, tree.toWireAt location = .ok wire
  copies : tree.height ≤ levels →
    ∃ again, WireNode.decode (2 * levels + 1) wire.toJson.source = .ok again ∧
      ∀ location next, again.toNodeAt location next = .ok (tree.recreate next)
  malformed : levels < tree.height →
    WireNode.decode (2 * levels + 1) wire.toJson.source = .error .malformed

structure ReloadsAll (levels : Nat) (nodes : List Node) (wires : List WireNode) : Prop where
  stored : ∀ location index, toWireChildren location index nodes = .ok wires
  copies : heightAll nodes ≤ levels →
    ∃ again, (WireNode.toJsonAll wires).mapM
        (fun item => WireNode.decode (2 * levels + 1) item.source) = .ok again ∧
      ∀ location index next,
        WireNode.toNodeChildren location index again next = .ok (recreateAll nodes next)
  malformed : levels < heightAll nodes →
    (WireNode.toJsonAll wires).mapM (fun item => WireNode.decode (2 * levels + 1) item.source) =
      .error .malformed

structure ReloadsNamed (levels : Nat) (named : List (String × Node))
    (wires : List (String × WireNode)) : Prop where
  stored : ∀ location, toWireNamed location named = .ok wires
  copies : heightNamed named ≤ levels →
    ∃ again, (WireNode.toJsonNamed wires).mapM
        (Source.member (WireNode.decode (2 * levels + 1))) = .ok again ∧
      ∀ location next, WireNode.toNodeNamed location again next = .ok (recreateNamed named next)
  malformed : levels < heightNamed named →
    (WireNode.toJsonNamed wires).mapM (Source.member (WireNode.decode (2 * levels + 1))) =
      .error .malformed

variable {levels : Nat} {node : Node} {wire : WireNode}

/-- The first operand that is too high makes the whole list malformed. -/
theorem ReloadsAll.cons {nodes : List Node} {wires : List WireNode}
    (first : Reloads levels node wire) (later : ReloadsAll levels nodes wires) :
    ReloadsAll levels (node :: nodes) (wire :: wires) where
  stored location index := by
    rw [toWireChildren, first.stored, later.stored]
    rfl
  copies low := by
    obtain ⟨here, below⟩ := Nat.max_le.1 low
    obtain ⟨again, decoded, read⟩ := first.copies here
    obtain ⟨others, decodedAll, readAll⟩ := later.copies below
    refine ⟨again :: others, ?_, fun location index next => ?_⟩
    · rw [WireNode.toJsonAll, List.mapM_cons, decoded, decodedAll]
      rfl
    · refine StateT.bind_eq_ok.2 ⟨_, _, read (location.child index) next, ?_⟩
      exact StateT.bind_eq_ok.2 ⟨_, _, readAll location (index + 1) _, rfl⟩
  malformed high := by
    rw [WireNode.toJsonAll, List.mapM_cons]
    by_cases here : node.height ≤ levels
    · obtain ⟨again, decoded, -⟩ := first.copies here
      have below : levels < heightAll nodes := by
        rw [heightAll] at high
        omega
      rw [decoded, later.malformed below]
      rfl
    · rw [first.malformed (Nat.lt_of_not_le here)]
      rfl

theorem ReloadsNamed.cons {key : String} {named : List (String × Node)}
    {wires : List (String × WireNode)} (first : Reloads levels node wire)
    (later : ReloadsNamed levels named wires) :
    ReloadsNamed levels ((key, node) :: named) ((key, wire) :: wires) where
  stored location := by
    rw [toWireNamed, first.stored, later.stored]
    rfl
  copies low := by
    obtain ⟨here, below⟩ := Nat.max_le.1 low
    obtain ⟨again, decoded, read⟩ := first.copies here
    obtain ⟨others, decodedAll, readAll⟩ := later.copies below
    refine ⟨(key, again) :: others, ?_, fun location next => ?_⟩
    · rw [WireNode.toJsonNamed, List.mapM_cons, Source.member, decoded, decodedAll]
      rfl
    · refine StateT.bind_eq_ok.2 ⟨_, _, read (location.named key) next, ?_⟩
      exact StateT.bind_eq_ok.2 ⟨_, _, readAll location _, rfl⟩
  malformed high := by
    rw [WireNode.toJsonNamed, List.mapM_cons, Source.member]
    by_cases here : node.height ≤ levels
    · obtain ⟨again, decoded, -⟩ := first.copies here
      have below : levels < heightNamed named := by
        rw [heightNamed] at high
        omega
      rw [decoded, later.malformed below]
      rfl
    · rw [first.malformed (Nat.lt_of_not_le here)]
      rfl

theorem exists_reloadsAll {nodes : List Node}
    (each : ∀ node ∈ nodes, ∃ wire, Reloads levels node wire) :
    ∃ wires, ReloadsAll levels nodes wires := by
  induction nodes with
  | nil => exact ⟨[], fun _ _ => rfl, fun _ => ⟨[], rfl, fun _ _ _ => rfl⟩, nofun⟩
  | cons node rest ih =>
    obtain ⟨here, later⟩ := List.forall_mem_cons.1 each
    obtain ⟨wire, first⟩ := here
    obtain ⟨wires, later⟩ := ih later
    exact ⟨wire :: wires, ReloadsAll.cons first later⟩

theorem exists_reloadsNamed {named : List (String × Node)}
    (each : ∀ entry ∈ named, ∃ wire, Reloads levels entry.2 wire) :
    ∃ wires, ReloadsNamed levels named wires ∧
      (WireNode.toJsonNamed wires).map Prod.fst = named.map Prod.fst := by
  induction named with
  | nil => exact ⟨[], ⟨fun _ => rfl, fun _ => ⟨[], rfl, fun _ _ => rfl⟩, nofun⟩, rfl⟩
  | cons entry rest ih =>
    obtain ⟨here, later⟩ := List.forall_mem_cons.1 each
    obtain ⟨wire, first⟩ := here
    obtain ⟨wires, later, keys⟩ := ih later
    exact ⟨(entry.1, wire) :: wires, ReloadsNamed.cons first later, congrArg (entry.1 :: ·) keys⟩

/-- **A tree that fits the brackets reloads**, whether or not there is a level left. -/
theorem exists_reloads : ∀ {levels : Nat} {tree : Node}, tree.Everywhere Storable →
    tree.Everywhere OwnDistinctKeys → tree.Within levels → ∃ wire, Reloads levels tree wire
  | 0, ⟨id, name, constant, children, named⟩, storable, _, within => by
    obtain ⟨own, -⟩ := storable
    obtain ⟨shallow, rfl, rfl⟩ := within
    obtain ⟨stored, again, written, decoded, -⟩ := own.exists_literal shallow
    refine ⟨⟨some (toString id), wireName name, stored, [], []⟩, ?_, nofun, fun _ => ?_⟩
    · intro location
      rw [toWireAt, written]
      rfl
    · -- The leaf has no brackets left for its collections.
      refine (WireNode.record_toJson 0 _ _ _ _ _ _ _).trans ?_
      rw [decoded]
      rfl
  | levels + 1, ⟨id, name, constant, children, named⟩, storable, distinct, within => by
    obtain ⟨own, storableAll, storableNamed⟩ := Node.everywhere_iff.1 storable
    obtain ⟨keys, distinctAll, distinctNamed⟩ := Node.everywhere_iff.1 distinct
    obtain ⟨shallow, positional, keyed⟩ := within
    obtain ⟨stored, again, written, decoded, literal⟩ := own.exists_literal shallow
    obtain ⟨wires, all⟩ := exists_reloadsAll fun child mem =>
      exists_reloads (storableAll child mem) (distinctAll child mem) (positional child mem)
    obtain ⟨entries, table, sameKeys⟩ := exists_reloadsNamed fun entry mem =>
      exists_reloads (storableNamed entry mem) (distinctNamed entry mem) (keyed entry mem)
    have distinctKeys : ((WireNode.toJsonNamed entries).map Prod.fst).Nodup := by
      rw [sameKeys]
      exact keys
    have operands : WireNode.decode (2 * (levels + 1) + 1)
        (WireNode.toJson ⟨some (toString id), wireName name, stored, wires, entries⟩).source =
        (do
          let children ← (WireNode.toJsonAll wires).mapM
            fun item => WireNode.decode (2 * levels + 1) item.source
          let named ← (WireNode.toJsonNamed entries).mapM
            (Source.member (WireNode.decode (2 * levels + 1)))
          return ⟨some (toString id), wireName name, again, children, named⟩) := by
      refine (WireNode.record_toJson (2 * levels + 2)
        (Source.list (WireNode.decode (2 * levels + 1)))
        (Source.entries (WireNode.decode (2 * levels + 1))) _ _ _ _ _).trans ?_
      rw [decoded, Source.list_sourceItems, Source.entries_sourceMembers _ distinctKeys]
      rfl
    refine ⟨⟨some (toString id), wireName name, stored, wires, entries⟩, ?_, fun low => ?_,
      fun high => ?_⟩
    · intro location
      rw [toWireAt, written, all.stored, table.stored]
      rfl
    · obtain ⟨lowAll, lowNamed⟩ := Nat.max_le.1 (Nat.le_of_succ_le_succ low)
      obtain ⟨children', decodedAll, readAll⟩ := all.copies lowAll
      obtain ⟨named', decodedNamed, readNamed⟩ := table.copies lowNamed
      refine ⟨⟨some (toString id), wireName name, again, children', named'⟩, ?_, ?_⟩
      · rw [operands, decodedAll, decodedNamed]
        rfl
      · intro location next
        rw [WireNode.toNodeAt, nodeName_wireName own.notUndefined]
        have lifted := StateT.lift_eq_ok.2 ⟨literal location, (rfl : next = next)⟩
        refine StateT.bind_eq_ok.2 ⟨constant, next, lifted, ?_⟩
        refine StateT.bind_eq_ok.2 ⟨next, next + 1, rfl, ?_⟩
        refine StateT.bind_eq_ok.2 ⟨_, _, readAll location 0 (next + 1), ?_⟩
        exact StateT.bind_eq_ok.2 ⟨_, _, readNamed location _, rfl⟩
    · rw [operands]
      by_cases lowAll : heightAll children ≤ levels
      · obtain ⟨children', decodedAll, -⟩ := all.copies lowAll
        have highNamed : levels < heightNamed named := by
          rw [height] at high
          omega
        rw [decodedAll, table.malformed highNamed]
        rfl
      · rw [all.malformed (Nat.lt_of_not_le lowAll)]
        rfl

/-! ## Texts -/

theorem deserialize_text_of_ok {json : Json} {wire : WireNode} {next : Nat} {result : Node × Nat}
    (decoded : WireNode.decode Json.maxDepth json.source = .ok wire)
    (read : wire.toNode next = .ok result) : deserialize json.text next = .ok result := by
  simp only [deserialize, Json.parse_text, decoded, read]

theorem deserialize_text_of_error {json : Json} {fault : Fault}
    (decoded : WireNode.decode Json.maxDepth json.source = .error fault) (next : Nat) :
    deserialize json.text next = .error (.json fault) := by
  simp only [deserialize, Json.parse_text, decoded]

theorem exists_decode_of_deserialize {text : String} {next : Nat} {result : Node × Nat}
    (loads : deserialize text next = .ok result) :
    ∃ source wire, WireNode.decode Json.maxDepth source = .ok wire ∧
      wire.toNode next = .ok result := by
  rw [deserialize] at loads
  split at loads
  · cases loads
  · next wire parsed =>
    split at loads
    · next read =>
      cases loads
      obtain ⟨source, decoded⟩ := Source.parse_eq_ok parsed
      exact ⟨source, wire, decoded, read⟩
    · cases loads

/-- **What was loaded can be saved, and the saved text is loaded again unless the tree uses up all
levels.** A tree that was loaded has at most 64 levels. If it has fewer, what is saved is loaded as
a copy, which differs from the tree in its identities only and is equal to it. If it has 64, the
nodes on its last level were loaded without collections and are saved with empty ones, which nest
too deep, so that the saved text is malformed. -/
theorem reload_of_deserialize {text : String} {next : Nat} {result : Node × Nat}
    (loads : deserialize text next = .ok result) :
    result.1.height ≤ 64 ∧ ∃ saved, result.1.serialize = .ok saved ∧
      (result.1.height < 64 → ∀ other,
        deserialize saved other = .ok (result.1.recreate other) ∧
          result.1.Alike (result.1.recreate other).1 ∧
            result.1.equal (result.1.recreate other).1 = true) ∧
      (result.1.height = 64 → ∀ other, deserialize saved other = .error (.json .malformed)) := by
  obtain ⟨source, wire, decoded, read⟩ := exists_decode_of_deserialize loads
  obtain ⟨tree, rest⟩ := result
  obtain ⟨within, distinct⟩ := WireNode.within_of_decode 63 decoded read
  have storable := WireNode.storable_of_toNodeAt read
  obtain ⟨stored, reloads⟩ := exists_reloads storable ((distinctKeys_iff tree).1 distinct) within
  refine ⟨within.height_le, stored.toJson.text, ?_, fun low other => ⟨?_, ?_, ?_⟩,
    fun full other => ?_⟩
  · rw [serialize, toWire, reloads.stored]
    rfl
  · obtain ⟨again, decoded, copy⟩ := reloads.copies (Nat.le_of_lt_succ low)
    exact deserialize_text_of_ok decoded (copy Path.root other)
  · exact alike_recreate tree other
  · exact equal_of_alike (alike_recreate tree other) distinct
      (storable.mono fun _ => Storable.finite)
  · exact deserialize_text_of_error (reloads.malformed (Nat.le_of_eq full.symm)) other

/-- Conjunctions of one operand within each other. The innermost one has no collections. -/
def nested : Nat → Json
  | 0 => .object [("name", .string Name.and)]
  | levels + 1 => .object [("name", .string Name.and), ("children", .array [nested levels])]

/-- A tree of 63 levels is loaded again. One more level can be loaded and saved, but what is saved
cannot be loaded. -/
theorem reload_of_deserialize_of_nested :
    (∃ result saved, deserialize (nested 62).text 1 = .ok result ∧ result.1.height = 63 ∧
      result.1.serialize = .ok saved ∧
        ∀ other, deserialize saved other = .ok (result.1.recreate other)) ∧
    ∃ result saved, deserialize (nested 63).text 1 = .ok result ∧ result.1.height = 64 ∧
      result.1.serialize = .ok saved ∧
        ∀ other, deserialize saved other = .error (.json .malformed) := by
  have loads {levels height : Nat}
      (read : (deserialize (nested levels).text 1).toOption.map (·.1.height) = some height) :
      ∃ result, deserialize (nested levels).text 1 = .ok result ∧ result.1.height = height := by
    obtain ⟨result, loaded, high⟩ := Option.map_eq_some_iff.1 read
    refine ⟨result, ?_, high⟩
    cases answer : deserialize (nested _).text 1 with
    | error error =>
      rw [answer] at loaded
      cases loaded
    | ok other =>
      rw [answer] at loaded
      exact congrArg Except.ok (Option.some.inj loaded)
  obtain ⟨low, loadsLow, heightLow⟩ : ∃ result, deserialize (nested 62).text 1 = .ok result ∧
      result.1.height = 63 := loads (by rw [deserialize, Json.parse_text]; decide +kernel)
  obtain ⟨full, loadsFull, heightFull⟩ : ∃ result, deserialize (nested 63).text 1 = .ok result ∧
      result.1.height = 64 := loads (by rw [deserialize, Json.parse_text]; decide +kernel)
  obtain ⟨-, saved, written, copies, -⟩ := reload_of_deserialize loadsLow
  obtain ⟨-, saved', written', -, fails⟩ := reload_of_deserialize loadsFull
  refine ⟨⟨low, saved, loadsLow, heightLow, written, fun other => ?_⟩, full, saved', loadsFull,
    heightFull, written', fails heightFull⟩
  exact (copies (by omega) other).1

end Node

end RuleEditor
