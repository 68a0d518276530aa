import RuleEditor.Proofs.Context.Simple

/-!
# What is on offer

**Picks.** An option stands for a field of the trigger's table, for a field at the end of a chain of
links, or for a custom list. `Context.picks` lists what is to be on offer, given the chains, and the
options are made one after another for what it lists.

**Chains.** In a context whose tables and fields are stored under their own names the chains are
the simple chains in depth-first order, and there is one such list (`Context.ListsChains`).

**Exactly once** (`Context.operandOptions?_eq`). No field is offered twice: options for different
fields insert operands that say different things. Each of the fields is found again by following
its chain.
-/

namespace RuleEditor

/-! ## Building one after another -/

namespace Fresh

variable {α : Type}

theorem all_append (actions more : List (Fresh α)) :
    all (actions ++ more) = do
      let values ← all actions
      let others ← all more
      return values ++ others := by
  induction actions with
  | nil => rfl
  | cons action rest ih =>
    rw [List.cons_append, all, ih]
    rfl

theorem map_flatten_all (actions : List (List (Fresh α))) :
    (do return (← all (actions.map all)).flatten) = all actions.flatten := by
  induction actions with
  | nil => rfl
  | cons first rest ih =>
    rw [List.flatten_cons, all_append, ← ih]
    rfl

end Fresh

/-! ## Picks -/

/-- What an option stands for. -/
inductive Pick where
  | payload (field : Field)
  | database (table : String) (chain : List String) (field : Field)
  | customList (list : CustomList)

/-- The option for a pick. -/
def Pick.option : Pick → Fresh OperandOption
  | .payload field => do
    let node ← Node.payload field.name
    return ⟨.payload, field.name, some field.dataType, node⟩
  | .database table chain field => do
    let node ← Node.databaseAccess table chain field.name
    let label := table ++ "." ++ ".".intercalate chain ++ "." ++ field.name
    return ⟨.databaseAccess, label, some field.dataType, node⟩
  | .customList list => do
    let node ← Node.customList list.id
    return ⟨.customList, list.name, none, node⟩

namespace Context

variable {context : Context} {trigger : Table} {chains : List (List String × Table)}

/-- The fields that are reached by the chains from the trigger's table. -/
def databasePicks (trigger : Table) (chains : List (List String × Table)) : List Pick :=
  chains.flatMap fun (chain, table) => table.fields.values.map (.database trigger.name chain)

/-- What is to be on offer, given the chains from the trigger's table. -/
def picks (context : Context) (chains : List (List String × Table)) : List Pick :=
  (match context.triggerTable? with
    | none => []
    | some trigger => trigger.fields.values.map .payload ++ databasePicks trigger chains)
  ++ context.lists.map .customList

theorem payloadOptions_eq (trigger : Table) :
    payloadOptions trigger =
      Fresh.all ((trigger.fields.values.map Pick.payload).map Pick.option) := by
  rw [payloadOptions, List.map_map]
  rfl

theorem databaseOptions_eq (trigger : Table) (chain : List String) (table : Table) :
    databaseOptions trigger chain table =
      Fresh.all ((table.fields.values.map (Pick.database trigger.name chain)).map Pick.option) := by
  rw [databaseOptions, List.map_map]
  rfl

theorem listOptions_eq (lists : List CustomList) :
    listOptions lists = Fresh.all ((lists.map Pick.customList).map Pick.option) := by
  rw [listOptions, List.map_map]
  rfl

theorem all_databaseOptions (trigger : Table) (chains : List (List String × Table)) :
    (do return (← Fresh.all (chains.map fun (chain, table) =>
      databaseOptions trigger chain table)).flatten) =
      Fresh.all ((databasePicks trigger chains).map Pick.option) := by
  have each : (chains.map fun (chain, table) => databaseOptions trigger chain table) =
      (chains.map fun (chain, table) =>
        (table.fields.values.map (Pick.database trigger.name chain)).map Pick.option).map
          Fresh.all := by
    rw [List.map_map]
    exact List.map_congr_left fun entry _ => databaseOptions_eq trigger entry.1 entry.2
  rw [each, Fresh.map_flatten_all, databasePicks, List.map_flatMap, List.flatMap_def]

/-- **The options are made one after another** for the picks. -/
theorem operandOptions?_eq_all (there : context.triggerTable? = some trigger)
    (found : context.chains? trigger = some chains) :
    context.operandOptions? = do
      return some (← Fresh.all ((context.picks chains).map Pick.option)) := by
  have listed : context.picks chains = trigger.fields.values.map .payload ++
      databasePicks trigger chains ++ context.lists.map .customList := by
    rw [picks, there]
  rw [listed, List.map_append, List.map_append, Fresh.all_append, Fresh.all_append,
    ← payloadOptions_eq, ← listOptions_eq, ← all_databaseOptions, operandOptions?, there]
  dsimp only
  rw [found]
  rfl

/-- Without a trigger only the custom lists are on offer. -/
theorem operandOptions?_eq_lists (none : context.triggerTable? = none) :
    context.operandOptions? = do
      return some (← Fresh.all ((context.picks []).map Pick.option)) := by
  have listed : context.picks [] = context.lists.map .customList := by
    rw [picks, none]
    rfl
  rw [listed, ← listOptions_eq, operandOptions?, none]

end Context

/-! ## Options that say the same -/

namespace Node

theorem equalAll_map_string {links others : List String} :
    Constant.equalAll (links.map .string) (others.map .string) = true ↔ links = others := by
  induction links generalizing others with
  | nil => cases others <;> simp [Constant.equalAll]
  | cons link rest ih => cases others <;> simp [Constant.equalAll, Constant.equal, ih]

/-- A literal with an identity. -/
def leaf (id : Nat) (value : Constant) : Node := ⟨id, .constant, some value, [], []⟩

theorem payload_eq (field : String) (next : Nat) :
    payload field next =
      (⟨next + 1, .function Name.payload, none, [leaf next (.string field)], []⟩, next + 2) := rfl

theorem databaseAccess_eq (table : String) (links : List String) (field : String) (next : Nat) :
    databaseAccess table links field next =
      (⟨next + 3, .function Name.databaseAccess, none, [],
        [(Slot.tableName, leaf next (.string table)),
          (Slot.fieldName, leaf (next + 1) (.string field)),
          (Slot.path, leaf (next + 2) (.list (links.map .string)))]⟩, next + 4) := rfl

theorem equal_leaf {id id' : Nat} {value other : Constant} :
    (leaf id value).equal (leaf id' other) = value.equal other := by
  simp [leaf, equal, equalAll, equalNamed, Constant.equalOptional]

theorem equal_payload_iff {field other : String} {next next' : Nat} :
    (payload field next).1.equal (payload other next').1 = true ↔ field = other := by
  simp [payload_eq, equal, equalAll, equalNamed, Constant.equalOptional, equal_leaf, Constant.equal]

theorem equal_databaseAccess_iff {table table' field field' : String} {links links' : List String}
    {next next' : Nat} :
    (databaseAccess table links field next).1.equal (databaseAccess table' links' field' next').1 =
      true ↔ table = table' ∧ links = links' ∧ field = field' := by
  simp [databaseAccess_eq, equal, equalAll, equalNamed, Constant.equalOptional, equal_leaf,
    Constant.equal, Entries.get?, Slot.tableName, Slot.fieldName, Slot.path, equalAll_map_string]
  tauto

end Node

namespace Pick

variable {pick other : Pick} {option option' : OperandOption}

/-- The option is made for the pick. -/
def Gives (pick : Pick) (option : OperandOption) : Prop := ∃ next, option = (pick.option next).1

/-- The picks are the same field, reached in the same way. -/
def SameField : Pick → Pick → Prop
  | .payload field, .payload other => field.name = other.name
  | .database table chain field, .database table' chain' other =>
    table = table' ∧ chain = chain' ∧ field.name = other.name
  | _, _ => False

/-- Fields whose options say the same are the same. -/
theorem sameField_of_equal (gives : pick.Gives option) (gives' : other.Gives option')
    (field : option.kind ≠ .customList) (same : option.node.equal option'.node = true) :
    SameField pick other := by
  obtain ⟨next, rfl⟩ := gives
  obtain ⟨next', rfl⟩ := gives'
  cases pick with
  | customList list => exact absurd rfl field
  | payload field =>
    cases other with
    | payload field' => exact Node.equal_payload_iff.1 same
    | database table chain field' => cases same
    | customList list => cases same
  | database table chain field =>
    cases other with
    | payload field' => cases same
    | database table' chain' field' => exact Node.equal_databaseAccess_iff.1 same
    | customList list => cases same

theorem gives_of_mem_all {picks : List Pick} {next : Nat}
    (mem : option ∈ (Fresh.all (picks.map Pick.option) next).1) :
    ∃ pick ∈ picks, pick.Gives option := by
  induction picks generalizing next with
  | nil => cases mem
  | cons pick rest ih =>
    rcases List.mem_cons.1 mem with rfl | mem
    · exact ⟨pick, List.mem_cons_self, next, rfl⟩
    · obtain ⟨later, listed, gives⟩ := ih mem
      exact ⟨later, List.mem_cons_of_mem _ listed, gives⟩

/-- Options for fields that differ say different things. -/
theorem pairwise_all {picks : List Pick}
    (differ : picks.Pairwise fun pick other => ¬ SameField pick other) (next : Nat) :
    (Fresh.all (picks.map Pick.option) next).1.Pairwise fun option option' =>
      option.kind ≠ .customList → option.node.equal option'.node = false := by
  induction picks generalizing next with
  | nil => exact List.Pairwise.nil
  | cons pick rest ih =>
    obtain ⟨here, later⟩ := List.pairwise_cons.1 differ
    refine List.pairwise_cons.2 ⟨fun option mem field => ?_, ih later _⟩
    obtain ⟨other, listed, gives⟩ := gives_of_mem_all mem
    refine Bool.eq_false_iff.2 fun same => here other listed ?_
    exact sameField_of_equal ⟨next, rfl⟩ gives field same

end Pick

namespace Context

variable {context : Context} {trigger : Table} {chains : List (List String × Table)}

/-! ## The chains from the trigger -/

/-- The simple chains from the trigger's table, each with the table that it ends at, in depth-first
order. -/
structure ListsChains (context : Context) (chains : List (List String × Table)) : Prop where
  mem_iff : ∀ names last, (names, last) ∈ chains ↔
    ∃ trigger, context.triggerTable? = some trigger ∧ context.SimpleChain trigger names last
  ordered : ∀ trigger, context.triggerTable? = some trigger →
    chains.Pairwise fun entry other => context.Precedes trigger entry.1 other.1

namespace ListsChains

theorem simple (lists : context.ListsChains chains) (there : context.triggerTable? = some trigger)
    {names : List String} {last : Table} (mem : (names, last) ∈ chains) :
    context.SimpleChain trigger names last := by
  obtain ⟨_, again, chain⟩ := (lists.mem_iff names last).1 mem
  cases there.symm.trans again
  exact chain

theorem pairwise_ne (lists : context.ListsChains chains)
    (there : context.triggerTable? = some trigger) :
    chains.Pairwise fun entry other => entry.1 ≠ other.1 := by
  refine (lists.ordered trigger there).imp fun {entry other} precedes same => ?_
  rw [same] at precedes
  exact not_precedes_self trigger other.1 precedes

/-- **There is one list of the simple chains in depth-first order.** -/
theorem unique {others : List (List String × Table)} (lists : context.ListsChains chains)
    (lists' : context.ListsChains others) : others = chains := by
  have same : ∀ entry, entry ∈ others ↔ entry ∈ chains := fun entry =>
    (lists'.mem_iff entry.1 entry.2).trans (lists.mem_iff entry.1 entry.2).symm
  cases there : context.triggerTable? with
  | none =>
    have empty {listed : List (List String × Table)} (lists : context.ListsChains listed) :
        listed = [] := by
      refine List.eq_nil_iff_forall_not_mem.2 fun entry mem => ?_
      obtain ⟨trigger, again, -⟩ := (lists.mem_iff entry.1 entry.2).1 mem
      cases there.symm.trans again
    rw [empty lists, empty lists']
  | some trigger =>
    have nodup {listed : List (List String × Table)} (lists : context.ListsChains listed) :
        listed.Nodup := (lists.pairwise_ne there).imp fun apart eq => apart (congrArg Prod.fst eq)
    refine List.Perm.eq_of_pairwise ?_ (lists'.ordered trigger there) (lists.ordered trigger there)
      ((List.perm_ext_iff_of_nodup (nodup lists') (nodup lists)).2 same)
    exact fun entry other _ _ before after => absurd after before.asymm

end ListsChains

/-- The options are made for the picks of the list of chains. -/
theorem exists_listsChains (byName : context.ByName) :
    ∃ chains, context.ListsChains chains ∧ context.operandOptions? =
      (do return some (← Fresh.all ((context.picks chains).map Pick.option))) := by
  cases there : context.triggerTable? with
  | none =>
    refine ⟨[], ⟨fun names last => ?_, fun _ _ => .nil⟩, operandOptions?_eq_lists there⟩
    rw [there]
    exact iff_of_false List.not_mem_nil nofun
  | some trigger =>
    have here := byName.table?_trigger there
    obtain ⟨chains, found⟩ := exists_chains? byName trigger
    refine ⟨chains, ⟨fun names last => ?_, ?_⟩, operandOptions?_eq_all there found⟩
    · rw [mem_chains?_iff byName here found, there]
      simp
    · intro other again
      cases there.symm.trans again
      exact pairwise_chains? byName here found

/-! ## No field twice -/

theorem pairwise_fields {table : Table} (byName : table.FieldsByName) :
    table.fields.values.Pairwise fun field other => field.name ≠ other.name := by
  have keys : (table.fields.values.map Field.name).Nodup :=
    byName.map_name_values ▸ table.fields.distinct
  exact List.pairwise_map.1 keys

theorem pairwise_listPicks (context : Context) :
    (context.lists.map Pick.customList).Pairwise fun pick other => ¬ pick.SameField other :=
  List.pairwise_map.2 (List.pairwise_of_forall fun _ _ => id)

theorem table?_of_follow? {start last : Table} {names : List String} (byName : context.ByName)
    (here : context.table? start.name = some start)
    (ends : context.follow? start names = some last) : context.table? last.name = some last := by
  induction names generalizing start with
  | nil =>
    cases ends
    exact here
  | cons name rest ih =>
    rw [follow?_cons] at ends
    obtain ⟨linked, there, ends⟩ := Option.bind_eq_some_iff.1 ends
    exact ih (byName.table?_linked there) ends

theorem pairwise_databasePicks (fields : ∀ entry ∈ chains, entry.2.FieldsByName)
    (differ : chains.Pairwise fun entry other => entry.1 ≠ other.1) :
    (databasePicks trigger chains).Pairwise fun pick other => ¬ pick.SameField other := by
  rw [databasePicks, List.pairwise_flatMap]
  constructor
  · rintro ⟨chain, table⟩ mem
    refine List.pairwise_map.2 ((pairwise_fields (fields _ mem)).imp fun differ => ?_)
    exact fun same => differ same.2.2
  · refine differ.imp fun {entry other} differ => ?_
    rintro pick mem pick' mem' same
    obtain ⟨field, -, rfl⟩ := List.mem_map.1 mem
    obtain ⟨field', -, rfl⟩ := List.mem_map.1 mem'
    exact differ same.2.1

/-- No field is picked twice. -/
theorem pairwise_picks (byName : context.ByName) (lists : context.ListsChains chains) :
    (context.picks chains).Pairwise fun pick other => ¬ pick.SameField other := by
  rw [picks]
  refine List.pairwise_append.2 ⟨?_, pairwise_listPicks context, ?_⟩
  · cases there : context.triggerTable? with
    | none => exact .nil
    | some trigger =>
      have here := byName.table?_trigger there
      have fields : ∀ entry ∈ chains, entry.2.FieldsByName := by
        rintro ⟨names, last⟩ mem
        have ends := (lists.simple there mem).ends
        exact byName.fields _ last (table?_of_follow? byName here ends)
      have payload : (trigger.fields.values.map Pick.payload).Pairwise
          fun pick other => ¬ pick.SameField other :=
        List.pairwise_map.2 (pairwise_fields (byName.fields _ trigger here))
      refine List.pairwise_append.2
        ⟨payload, pairwise_databasePicks fields (lists.pairwise_ne there), ?_⟩
      intro pick mem other mem' same
      obtain ⟨field, -, rfl⟩ := List.mem_map.1 mem
      obtain ⟨entry, -, mem'⟩ := List.mem_flatMap.1 mem'
      obtain ⟨field', -, rfl⟩ := List.mem_map.1 mem'
      exact same
  · intro pick mem other mem' same
    obtain ⟨list, -, rfl⟩ := List.mem_map.1 mem'
    cases pick <;> exact same

theorem databaseField?_of_chain (byName : context.ByName)
    (here : context.table? trigger.name = some trigger) {names : List String} {last : Table}
    (chain : context.SimpleChain trigger names last) {field : Field}
    (mem : field ∈ last.fields.values) :
    context.databaseField? trigger.name names field.name = some field := by
  have there := table?_of_follow? byName here chain.ends
  rw [databaseField?, here]
  show (context.follow? trigger names >>= _) = _
  rw [chain.ends]
  exact (byName.fields _ last there).get?_name mem

/-- **Operands on offer.** In a context whose tables and fields are stored under their own names,
the options are made one after another for the fields of the trigger's table, for the fields at the
end of each simple chain from this table, in depth-first order, and for the custom lists. No option
for a field inserts the same as a later one, and the fields at the end of chains are found again by
following the chains. -/
theorem operandOptions?_eq (context : Context) (byName : context.ByName) :
    ∃ chains, context.ListsChains chains ∧
      (∀ others, context.ListsChains others → others = chains) ∧
      context.operandOptions? =
        (do return some (← Fresh.all ((context.picks chains).map Pick.option))) ∧
      (∀ next options, (context.operandOptions? next).1 = some options →
        options.Pairwise fun option other =>
          option.kind ≠ .customList → option.node.equal other.node = false) ∧
      ∀ trigger, context.triggerTable? = some trigger →
        ∀ names last, (names, last) ∈ chains → ∀ field ∈ last.fields.values,
          context.databaseField? trigger.name names field.name = some field := by
  obtain ⟨chains, lists, all⟩ := exists_listsChains byName
  refine ⟨chains, lists, fun others => lists.unique, all, ?_, ?_⟩
  · intro next options answered
    rw [all] at answered
    cases answered
    exact Pick.pairwise_all (pairwise_picks byName lists) next
  · intro trigger there names last mem field stored
    have here := byName.table?_trigger there
    exact databaseField?_of_chain byName here (lists.simple there mem) stored

/-- Orders and customers link to each other, and customers to regions, which are not in the data
model. -/
def ordersOfCustomers : Context :=
  let orders := ((Table.empty "orders").withField "total" .float).withLink "customer" "customers"
  let customers := (((Table.empty "customers").withField "name" .string).withField "age" .int)
    |>.withLink "last" "orders" |>.withLink "region" "regions"
  (((empty.withTable orders).withTable customers).withTrigger "orders").withList "7" "Friends"

theorem byName_ordersOfCustomers : ordersOfCustomers.ByName := by
  refine ((byName_empty.withTable ?_).withTable ?_).withTrigger _ |>.withList _ _
  · exact ((Table.fieldsByName_empty _).withField _ _).withLink _ _
  · exact ((((Table.fieldsByName_empty _).withField _ _).withField _ _).withLink _ _).withLink _ _

/-- There is one simple chain from the orders: the way back is one visit too many, and regions are
missing. -/
theorem operandOptions?_eq_of_orders :
    ordersOfCustomers.ByName ∧
      (ordersOfCustomers.operandOptions? 0).1.map (·.map OperandOption.label) =
        some ["total", "orders.customer.name", "orders.customer.age", "Friends"] ∧
      ∃ chains, ordersOfCustomers.ListsChains chains ∧
        ((∃ last, (["customer"], last) ∈ chains) ∧
          ¬ ∃ last, (["customer", "last"], last) ∈ chains) ∧
        ordersOfCustomers.operandOptions? =
          (do return some (← Fresh.all ((ordersOfCustomers.picks chains).map Pick.option))) := by
  have byName : ordersOfCustomers.ByName := byName_ordersOfCustomers
  obtain ⟨chains, lists, -, all, -⟩ := operandOptions?_eq ordersOfCustomers byName
  refine ⟨byName, by decide +kernel, chains, lists, ⟨?_, ?_⟩, all⟩
  · exact ⟨_, (lists.mem_iff _ _).2 ⟨_, rfl, nofun, rfl, _, rfl, by decide⟩⟩
  · rintro ⟨last, mem⟩
    obtain ⟨trigger, ⟨⟩, chain⟩ := (lists.mem_iff _ _).1 mem
    obtain ⟨tables, ⟨⟩, nodup⟩ := chain.simple
    exact absurd nodup (by decide)

end Context

end RuleEditor
