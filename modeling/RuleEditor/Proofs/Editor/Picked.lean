import RuleEditor.Proofs.Context.Listing
import RuleEditor.Proofs.Editor.Arity
import RuleEditor.Proofs.Editor.Distinct
import RuleEditor.Proofs.Editor.Offers
import RuleEditor.Proofs.Path.Spared
import RuleEditor.Proofs.Validation.Places

/-!
# Picked operands

**What is blamed.** At a node that was put into a tree there are two kinds of errors: those that the
checks of the node itself find, and those of the node above it, which blames an operand only if it
is a placeholder or a string (`Node.Blames`). So there are none at an operator or function whose own
checks find nothing, nor below it (`Node.Faultless.errorsAt_put?`).

**What is on offer.** The operand of an option is a function whose required operands are literals
(`Node.Accessor`), and what it refers to is in the context, since it was made from that
(`Context.found_of_mem_picks`).

Together, an operand that was picked has no errors, wherever in a tree it is put
(`Editor.errorsAt_of_picked`).
-/

namespace RuleEditor

namespace Node

variable {node root new updated : Node} {path : Path} {context : Option Context}

/-! ## Operands without errors -/

/-- The checks of the node find nothing. -/
def Passes (context : Option Context) (node : Node) : Prop :=
  ∀ path, node.nodeFindings context path = []

/-- An operand that brings no errors along, and that no node above it blames. -/
structure Faultless (context : Option Context) (node : Node) : Prop where
  distinct : node.Everywhere OwnDistinctKeys
  chosen : node.isUndefined = false
  plain : node.string? = none
  passes : node.Everywhere (Passes context)

/-- **A faultless operand has no errors at it or below it**, wherever below the root it is put. -/
theorem Faultless.errorsAt_put? {kind : RootKind} (faultless : new.Faultless context)
    (distinct : root.Everywhere OwnDistinctKeys) (put : root.put? new path = some updated)
    (deeper : path ≠ Path.root) (below : Path) :
    (updated.validateLocal kind context).errorsAt (path ++ below) = [] := by
  have there : updated.at? path = some new := at?_put? put
  have silent {inner : Path} {node : Node} (here : updated.at? (path ++ inner) = some node)
      (finding : Finding) : finding ∉ node.nodeFindings context (path ++ inner) := by
    rw [at?_append, there] at here
    rw [(everywhere_iff.1 (faultless.passes.at? here)).1]
    exact List.not_mem_nil
  refine List.eq_nil_iff_forall_not_mem.2 fun error mem => ?_
  rcases List.mem_append.1 (mem_errorsAt_validateLocal.1 mem) with shape | found
  · have above := (of_mem_rootFindings shape).1
    exact deeper (List.append_eq_nil_iff.1 above).1
  · obtain ⟨⟨place, node⟩, listed, found⟩ := List.mem_flatMap.1 found
    have here := (mem_walk_iff (distinct_put? distinct faultless.distinct put)).1 listed
    generalize same : path ++ below = target at found
    cases blames_of_mem_nodeFindings found with
    | self =>
      subst same
      exact silent here _ found
    | @operand segment operand step doubtful =>
      rcases List.eq_nil_or_concat' below with rfl | ⟨inner, last, rfl⟩
      · -- The node above would blame the new operand itself.
        rw [List.append_nil] at same
        have blamed : updated.at? (place ++ [segment]) = some operand := by
          rw [at?_concat, here]
          exact step
        cases (same ▸ there).symm.trans blamed
        rcases doubtful with undefined | string
        · rw [faultless.chosen] at undefined
          cases undefined
        · rw [faultless.plain] at string
          cases string
      · rw [← List.append_assoc] at same
        obtain ⟨rfl, -⟩ := List.append_inj' same rfl
        exact silent here _ found

/-! ## Accessors -/

/-- A function that is applied to literals, none of which is missing, and refers to something that
is known. -/
structure Accessor (known : Context) (name : String) (node : Node) : Prop where
  function : node.name = .function name
  constant : node.constant = none
  keys : node.OwnDistinctKeys
  literals : ∀ entry ∈ node.operands, ∃ id value, entry.2 = leaf id value
  arity : node.HasArity
  slots : ∀ slot ∈ Name.requiredSlots name, ∃ operand, node.slot? slot = some operand
  other : name ≠ Name.aggregation
  refers : ∀ path, node.referenceFindings known path name = []

namespace Accessor

variable {known : Context} {name : String}

theorem isUndefined_step? (accessor : node.Accessor known name) {segment : Segment}
    {operand : Node} (step : node.step? segment = some operand) : operand.isUndefined = false := by
  obtain ⟨id, value, rfl⟩ := accessor.literals _ ((mem_operands_iff accessor.keys).2 step)
  rfl

/-- Each check finds nothing in an accessor. -/
theorem passes (accessor : node.Accessor known name) : node.Passes (some known) := by
  intro path
  refine List.eq_nil_iff_forall_not_mem.2 fun finding found => ?_
  obtain ⟨_, function, found⟩ := mem_nodeFindings_iff.1 found
  have same : node.function? = some name := by rw [function?, accessor.function]
  cases same.symm.trans function
  rcases found with arity | operand | ⟨slot, required, missing⟩ | aggregator | ⟨_, ⟨⟩, -, reference⟩
  · rw [arityFindings_eq_nil_iff.2 fun count => accessor.arity name count function] at arity
    cases arity
  · obtain ⟨position, operand, there, undefined, -⟩ := of_mem_operandFindings operand
    have step : node.step? (.child position) = some operand := there
    cases undefined.symm.trans (accessor.isUndefined_step? step)
  · obtain ⟨chosen, there⟩ := accessor.slots slot required
    rcases of_mem_slotFindings missing with ⟨none, -⟩ | ⟨operand, there, undefined, -⟩
    · cases there.symm.trans none
    · have step : node.step? (.named slot) = some operand := there
      cases undefined.symm.trans (accessor.isUndefined_step? step)
  · exact accessor.other (of_mem_aggregatorFindings aggregator).1
  · rw [accessor.refers] at reference
    cases reference

/-- What holds of the function and of all literals holds everywhere in an accessor. -/
theorem everywhere {P : Node → Prop} (accessor : node.Accessor known name) (own : P node)
    (leaves : ∀ id value, P (leaf id value)) : node.Everywhere P := by
  refine everywhere_iff_operands.2 ⟨own, fun entry mem => ?_⟩
  obtain ⟨id, value, same⟩ := accessor.literals entry mem
  rw [same]
  exact everywhere_of_leaf (leaves id value) rfl rfl

theorem faultless (accessor : node.Accessor known name) : node.Faultless (some known) where
  distinct := accessor.everywhere accessor.keys fun _ _ => List.nodup_nil
  chosen := by
    rw [isUndefined, accessor.function]
    rfl
  plain := by
    rw [string?, accessor.constant]
    rfl
  passes := accessor.everywhere accessor.passes fun _ _ _ => rfl

end Accessor

theorem accessor_payload {known : Context} {field : String}
    (found : (known.payloadField? field).isSome = true) (next : Nat) :
    (payload field next).1.Accessor known Name.payload where
  function := rfl
  constant := rfl
  keys := List.nodup_nil
  literals := by
    intro entry mem
    cases List.mem_singleton.1 mem
    exact ⟨_, _, rfl⟩
  arity := hasArity_of_fixed rfl rfl rfl
  slots := nofun
  other := by decide
  refers := fun path => if_pos found

theorem links_databaseAccess (table : String) (links : List String) (field : String)
    (next : Nat) : (databaseAccess table links field next).1.links = links := by
  show (links.map Constant.string).filterMap Constant.string? = links
  rw [List.filterMap_map]
  exact List.filterMap_some

theorem accessor_databaseAccess {known : Context} {table field : String} {links : List String}
    (found : (known.databaseField? table links field).isSome = true) (next : Nat) :
    (databaseAccess table links field next).1.Accessor known Name.databaseAccess where
  function := rfl
  constant := rfl
  keys := show [Slot.tableName, Slot.fieldName, Slot.path].Nodup by decide
  literals := by
    intro entry mem
    simp only [databaseAccess_eq, operands, List.zipIdx_nil, List.map_nil, List.nil_append,
      List.map_cons, List.mem_cons, List.not_mem_nil, or_false] at mem
    rcases mem with rfl | rfl | rfl <;> exact ⟨_, _, rfl⟩
  arity := hasArity_of_arity rfl rfl nofun
  slots := by
    intro slot required
    have listed : slot ∈ [Slot.tableName, Slot.fieldName, Slot.path] := required
    simp only [List.mem_cons, List.not_mem_nil, or_false] at listed
    rcases listed with rfl | rfl | rfl <;> exact ⟨_, rfl⟩
  other := by decide
  refers := by
    intro path
    show (if (known.databaseField? table (databaseAccess table links field next).1.links
      field).isSome then [] else _) = []
    rw [links_databaseAccess]
    exact if_pos found

theorem accessor_customList {known : Context} {id : String}
    (found : (known.list? id).isSome = true) (next : Nat) :
    (customList id next).1.Accessor known Name.customListAccess where
  function := rfl
  constant := rfl
  keys := List.nodup_singleton _
  literals := by
    intro entry mem
    cases List.mem_singleton.1 mem
    exact ⟨_, _, rfl⟩
  arity := hasArity_of_arity rfl rfl nofun
  slots := by
    intro slot required
    cases List.mem_singleton.1 required
    exact ⟨_, rfl⟩
  other := by decide
  refers := fun path => if_pos found

end Node

/-! ## What is on offer -/

namespace Pick

/-- What the pick stands for is found in the context. -/
def Found (context : Context) : Pick → Prop
  | .payload field => context.payloadField? field.name = some field
  | .database table chain field => context.databaseField? table chain field.name = some field
  | .customList list => (context.list? list.id).isSome = true

/-- **The operand of an option is faultless** if what it stands for is found. -/
theorem Gives.faultless {context : Context} {pick : Pick} {option : OperandOption}
    (gives : pick.Gives option) (found : pick.Found context) :
    option.node.Faultless (some context) := by
  obtain ⟨next, rfl⟩ := gives
  cases pick with
  | payload field => exact (Node.accessor_payload (Option.isSome_of_eq_some found) next).faultless
  | database table chain field =>
    exact (Node.accessor_databaseAccess (Option.isSome_of_eq_some found) next).faultless
  | customList list => exact (Node.accessor_customList found next).faultless

end Pick

namespace Context

variable {context : Context} {chains : List (List String × Table)}

theorem found_of_mem_picks (byName : context.ByName) (lists : context.ListsChains chains) :
    ∀ pick ∈ context.picks chains, pick.Found context := by
  intro pick mem
  rw [picks, List.mem_append] at mem
  rcases mem with fields | custom
  · cases there : context.triggerTable? with
    | none =>
      rw [there] at fields
      cases fields
    | some trigger =>
      have here := byName.table?_trigger there
      rw [there] at fields
      rcases List.mem_append.1 fields with payload | database
      · obtain ⟨field, stored, rfl⟩ := List.mem_map.1 payload
        rw [Pick.Found, payloadField?, there]
        exact (byName.fields _ trigger here).get?_name stored
      · obtain ⟨⟨names, last⟩, listed, mem⟩ := List.mem_flatMap.1 database
        obtain ⟨field, stored, rfl⟩ := List.mem_map.1 mem
        exact databaseField?_of_chain byName here (lists.simple there listed) stored
  · obtain ⟨list, stored, rfl⟩ := List.mem_map.1 custom
    exact List.find?_isSome.2 ⟨list, stored, decide_eq_true rfl⟩

/-- There are options, and what each of them stands for is found in the context. -/
theorem exists_operandOptions? (byName : context.ByName) (next : Nat) :
    ∃ options, (context.operandOptions? next).1 = some options ∧
      ∀ option ∈ options, ∃ pick : Pick, pick.Found context ∧ pick.Gives option := by
  obtain ⟨chains, lists, all⟩ := exists_listsChains byName
  rw [all]
  refine ⟨_, rfl, fun option mem => ?_⟩
  obtain ⟨pick, listed, gives⟩ := Pick.gives_of_mem_all mem
  exact ⟨pick, found_of_mem_picks byName lists pick listed, gives⟩

end Context

/-! ## Picking -/

namespace Editor

/-- **Picked operands are valid.** While a tree is edited in a context whose tables and fields are
stored under their own names, there is a list of options, and the operand of each of them can be put
at any path of the tree below the root. Local validation then finds no error at this path, nor at
any path below it. -/
theorem errorsAt_of_picked (editor : Editor) (context : Context) (path : Path) (node : Node)
    (next : Nat) (editing : editor.config.mode = .edit) (attached : editor.context = some context)
    (byName : context.ByName) (distinct : editor.root.DistinctKeys) (deeper : path ≠ Path.root)
    (there : editor.root.at? path = some node) :
    ∃ options, (context.operandOptions? next).1 = some options ∧
      ∀ option ∈ options, ∀ supply, ∃ edited,
        editor.apply (.setOperand path option.node) supply = .ok (edited, supply) ∧
          edited.root.at? path = some option.node ∧
          ∀ below, edited.validation.localErrors.errorsAt (path ++ below) = [] := by
  obtain ⟨options, answered, made⟩ := Context.exists_operandOptions? byName next
  refine ⟨options, answered, fun option mem supply => ?_⟩
  obtain ⟨pick, found, gives⟩ := made option mem
  obtain ⟨root, put⟩ := Node.exists_put?_iff.2 ⟨node, there⟩
  have reduced : editor.root.reduce (.setOperand path option.node) supply = .ok (root, supply) :=
    Edit.located_eq_ok.2 ⟨Node.put_eq_ok.2 put, rfl⟩
  refine ⟨editor.advance root, apply_of_reduce editing reduced, Node.at?_put? put, fun below => ?_⟩
  have errors : (editor.advance root).validation.localErrors =
      root.validateLocal editor.config.rootKind (some context) := attached ▸ rfl
  rw [errors]
  have keys := (Node.distinctKeys_iff editor.root).1 distinct
  exact (gives.faultless found).errorsAt_put? keys put deeper below

/-- A slot with a check of its own: whatever is picked, no name of an aggregator is missed there. -/
theorem errorsAt_of_picked_aggregator :
    let root : Node := ⟨1, .function Name.aggregation, none, [],
      [(Slot.aggregator, Node.leaf 0 (.string "MEDIAN"))]⟩
    let editor := (Editor.ofTree root .default).withContext Context.ordersOfCustomers
    let path : Path := [.named Slot.aggregator]
    editor.validation.localErrors.errorsAt path ≠ [] ∧
      ∃ options, (Context.ordersOfCustomers.operandOptions? 2).1 = some options ∧
        options.length = 4 ∧
        ∀ option ∈ options, ∀ supply, ∃ edited,
          editor.apply (.setOperand path option.node) supply = .ok (edited, supply) ∧
            edited.root.at? path = some option.node ∧
            ∀ below, edited.validation.localErrors.errorsAt (path ++ below) = [] := by
  intro root editor path
  have distinct : root.DistinctKeys := by simp [root, Node.leaf, Node.DistinctKeys,
    Node.DistinctKeysAll, Node.DistinctKeysNamed]
  have offered : (Context.ordersOfCustomers.operandOptions? 2).1.map List.length = some 4 := by
    decide +kernel
  obtain ⟨options, answered, picked⟩ :=
    errorsAt_of_picked editor Context.ordersOfCustomers path (Node.leaf 0 (.string "MEDIAN")) 2 rfl
      rfl Context.byName_ordersOfCustomers distinct (List.cons_ne_nil _ _) rfl
  rw [answered] at offered
  exact ⟨by decide +kernel, options, answered, Option.some.inj offered, picked⟩

/-- While a tree is only looked at, no operand can be put anywhere, picked or not. -/
theorem readOnly_of_picked :
    let root : Node := ⟨2, .function Name.greater, none,
      [⟨1, .function Name.payload, none, [Node.leaf 0 (.string "total")], []⟩,
        Node.leaf 3 (.int 1000)], []⟩
    let editor := (Editor.ofTree root (EditorConfig.default.withMode .view)).withContext
      Context.ordersOfCustomers
    editor.context = some Context.ordersOfCustomers ∧ Context.ordersOfCustomers.ByName ∧
      (∃ node, root.at? [.child 0] = some node) ∧
      ∃ options, (Context.ordersOfCustomers.operandOptions? 4).1 = some options ∧
        ∃ option ∈ options, ∀ supply,
          editor.apply (.setOperand [.child 0] option.node) supply = .error .readOnly := by
  intro root editor
  have offered : ((Context.ordersOfCustomers.operandOptions? 4).1.map List.length) = some 4 := by
    decide +kernel
  obtain ⟨options, answered, length⟩ := Option.map_eq_some_iff.1 offered
  obtain ⟨option, rest, rfl⟩ := List.exists_cons_of_length_eq_add_one length
  exact ⟨rfl, Context.byName_ordersOfCustomers, ⟨_, rfl⟩, _, answered, option,
    List.mem_cons_self, fun _ => rfl⟩

end Editor

end RuleEditor
