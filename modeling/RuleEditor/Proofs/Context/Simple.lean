import RuleEditor.Proofs.Context.Chains

/-!
# Simple chains

**Names.** Tables and fields are stored under their own names (`Context.ByName`) when a context is
built with the functions that store them.

**Simple chains** (`Context.SimpleChain`). In such a context the chains that the search follows are
those that can be said without it: links that lead through tables of the data model and never to a
table twice, the first one included.

**Order** (`Context.Precedes`). The search lists a chain before the chains that continue it, and
chains that part at a table in the order in which the links of this table are stored. This is a
strict order, so the chains and their order are all there is to say about the list.
-/

namespace RuleEditor

/-! ## Tables and fields stored under their own names -/

/-- Each field is stored under its own name. -/
def Table.FieldsByName (table : Table) : Prop :=
  ∀ name field, table.fields.get? name = some field → field.name = name

namespace Table

variable {table : Table}

theorem fieldsByName_empty (name : String) : (empty name).FieldsByName := by
  intro key field stored
  cases stored

theorem FieldsByName.withField (byName : table.FieldsByName) (name : String)
    (dataType : DataType) : (table.withField name dataType).FieldsByName := by
  intro key field stored
  rw [Table.withField, Keyed.get?_insert] at stored
  split at stored
  · next same =>
    cases stored
    exact same
  · exact byName key field stored

theorem FieldsByName.withLink (byName : table.FieldsByName) (name target : String) :
    (table.withLink name target).FieldsByName := byName

theorem FieldsByName.map_name_values (byName : table.FieldsByName) :
    table.fields.values.map Field.name = table.fields.keys := by
  rw [Keyed.values, Keyed.keys, List.map_map]
  refine List.map_congr_left fun entry mem => ?_
  exact byName entry.1 entry.2 (Keyed.get?_eq_some_iff.2 mem)

theorem FieldsByName.get?_name (byName : table.FieldsByName) {field : Field}
    (mem : field ∈ table.fields.values) : table.fields.get? field.name = some field := by
  obtain ⟨key, stored⟩ := Keyed.mem_values_iff.1 mem
  rwa [byName key field stored]

end Table

namespace Context

variable {context : Context} {visited chain names : List String} {key name : String}
  {table linked last trigger : Table} {fuel : Nat}

/-- Each table is stored under its own name, and each field of a table under its own. -/
structure ByName (context : Context) : Prop where
  tables : ∀ key table, context.table? key = some table → table.name = key
  fields : ∀ key table, context.table? key = some table → table.FieldsByName

theorem byName_empty : empty.ByName where
  tables := by
    intro key table stored
    cases stored
  fields := by
    intro key table stored
    cases stored

theorem ByName.withTable (byName : context.ByName) (fields : table.FieldsByName) :
    (context.withTable table).ByName := by
  have stored (key : String) : (context.withTable table).table? key =
      if table.name = key then some table else context.table? key :=
    Keyed.get?_insert ..
  constructor
  · intro key other there
    rw [stored] at there
    split at there
    · next same =>
      cases there
      exact same
    · exact byName.tables key other there
  · intro key other there
    rw [stored] at there
    split at there
    · cases there
      exact fields
    · exact byName.fields key other there

theorem ByName.withTrigger (byName : context.ByName) (trigger : String) :
    (context.withTrigger trigger).ByName := ⟨byName.tables, byName.fields⟩

theorem ByName.withList (byName : context.ByName) (id name : String) :
    (context.withList id name).ByName := ⟨byName.tables, byName.fields⟩

theorem ByName.linksByName (byName : context.ByName) : context.LinksByName :=
  fun _ _ _ _ linked _ _ there => byName.tables _ linked there

theorem ByName.table?_name (byName : context.ByName) (there : context.table? key = some table) :
    context.table? table.name = some table := by
  rwa [byName.tables key table there]

theorem ByName.table?_trigger (byName : context.ByName)
    (there : context.triggerTable? = some trigger) :
    context.table? trigger.name = some trigger := by
  obtain ⟨key, -, stored⟩ := Option.bind_eq_some_iff.1 there
  exact byName.table?_name stored

/-! ## Simple chains -/

/-- The table that a link leads to, if it is in the data model. -/
def linked? (context : Context) (table : Table) (name : String) : Option Table :=
  (table.links.get? name).bind fun link => context.table? link.table

theorem ByName.table?_linked (byName : context.ByName)
    (there : context.linked? table name = some linked) :
    context.table? linked.name = some linked := by
  obtain ⟨link, -, stored⟩ := Option.bind_eq_some_iff.1 there
  exact byName.table?_name stored

theorem follow?_cons (table : Table) (name : String) (rest : List String) :
    context.follow? table (name :: rest) =
      (context.linked? table name).bind (context.follow? · rest) :=
  (Option.bind_assoc ..).symm

/-- The tables that links lead to one after another, if all of them are in the data model. -/
def tablesAlong? (context : Context) (table : Table) : List String → Option (List Table)
  | [] => some []
  | name :: rest => do
    let linked ← context.linked? table name
    let later ← context.tablesAlong? linked rest
    return linked :: later

/-- The links lead from one table to another one, through tables of the data model, none of which is
visited twice. -/
structure SimpleChain (context : Context) (start : Table) (chain : List String) (last : Table) :
    Prop where
  nonempty : chain ≠ []
  ends : context.follow? start chain = some last
  simple : ∃ tables, context.tablesAlong? start chain = some tables ∧
    ((start :: tables).map Table.name).Nodup

theorem tablesAlong?_cons_eq_some {rest : List String} {tables : List Table} :
    context.tablesAlong? table (name :: rest) = some tables ↔
      ∃ linked later, context.linked? table name = some linked ∧
        context.tablesAlong? linked rest = some later ∧ tables = linked :: later := by
  rw [tablesAlong?, Option.bind_eq_bind, Option.bind_eq_some_iff]
  simp only [Option.bind_eq_bind, Option.bind_eq_some_iff, Option.pure_def, Option.some.injEq,
    eq_comm (b := tables)]
  tauto

theorem follows_iff (byName : context.ByName) (here : context.table? key = some table) :
    context.Follows visited key name linked ↔
      context.linked? table name = some linked ∧ linked.name ∉ visited := by
  constructor
  · rintro ⟨_, link, known, listed, new, there⟩
    cases here.symm.trans known
    have stored : table.links.get? name = some link := Keyed.get?_eq_some_iff.2 listed
    refine ⟨?_, (byName.tables _ linked there) ▸ new⟩
    rw [linked?, stored]
    exact there
  · rintro ⟨found, new⟩
    obtain ⟨link, stored, there⟩ := Option.bind_eq_some_iff.1 found
    refine ⟨table, link, here, Keyed.get?_eq_some_iff.1 stored, ?_, there⟩
    rwa [← byName.tables _ linked there]

/-- **The chains that the search follows are simple**, and meet none of the names that it has been
through. -/
theorem chain_iff (byName : context.ByName) (here : context.table? key = some table) :
    context.Chain visited key names ↔
      ∃ tables, context.tablesAlong? table names = some tables ∧ (tables.map Table.name).Nodup ∧
        ∀ table ∈ tables, table.name ∉ visited := by
  induction names generalizing visited key table with
  | nil => exact iff_of_true trivial ⟨[], rfl, List.nodup_nil, nofun⟩
  | cons name rest ih =>
    constructor
    · rintro ⟨linked, follows, chain⟩
      obtain ⟨found, new⟩ := (follows_iff byName here).1 follows
      obtain ⟨later, along, nodup, apart⟩ := (ih (byName.table?_linked found)).1 chain
      refine ⟨linked :: later, tablesAlong?_cons_eq_some.2 ⟨_, _, found, along, rfl⟩, ?_, ?_⟩
      · refine List.nodup_cons.2 ⟨fun again => ?_, nodup⟩
        obtain ⟨other, mem, same⟩ := List.mem_map.1 again
        exact apart other mem (List.mem_append_right _ (List.mem_singleton.2 same))
      · refine List.forall_mem_cons.2 ⟨new, fun other mem seen => ?_⟩
        exact apart other mem (List.mem_append_left _ seen)
    · rintro ⟨tables, along, nodup, apart⟩
      obtain ⟨linked, later, found, below, rfl⟩ := tablesAlong?_cons_eq_some.1 along
      obtain ⟨new, apart⟩ := List.forall_mem_cons.1 apart
      obtain ⟨unseen, nodup⟩ := List.nodup_cons.1 nodup
      refine ⟨linked, (follows_iff byName here).2 ⟨found, new⟩,
        (ih (byName.table?_linked found)).2 ⟨later, below, nodup, fun other mem seen => ?_⟩⟩
      rcases List.mem_append.1 seen with before | now
      · exact apart other mem before
      · exact unseen (List.mem_map.2 ⟨other, mem, List.mem_singleton.1 now⟩)

/-! ## What the search lists -/

/-- The chains that are listed behind a link, and where they end. -/
theorem chainsThrough_spec {link : Link} {result : List (List String × Table)}
    (stored : table.links.get? name = some link)
    (through : context.chainsThrough fuel visited chain (name, link) = some result) :
    result = [] ∨ ∃ linked longer, context.linked? table name = some linked ∧
      context.chainsFrom fuel (visited ++ [linked.name]) (chain ++ [name]) linked.name =
        some longer ∧ result = (chain ++ [name], linked) :: longer := by
  rw [chainsThrough] at through
  split at through
  · cases through
    exact Or.inl rfl
  · split at through
    · cases through
      exact Or.inl rfl
    · next linked there =>
      obtain ⟨longer, later, same⟩ := Option.bind_eq_some_iff.1 through
      cases same
      have found : context.linked? table name = some linked := by
        rw [linked?, stored]
        exact there
      exact Or.inr ⟨linked, longer, found, later, rfl⟩

theorem eq_map_of_mapM {α β : Type} {f : α → Option β} {items : List α} {results : List β}
    (all : items.mapM f = some results) :
    results.map some = items.map f := by
  induction items generalizing results with
  | nil =>
    cases all
    rfl
  | cons item rest ih =>
    rw [List.mapM_cons] at all
    obtain ⟨first, here, all⟩ := Option.bind_eq_some_iff.1 all
    obtain ⟨later, others, same⟩ := Option.bind_eq_some_iff.1 all
    cases same
    rw [List.map_cons, List.map_cons, here, ih others]

/-- Each chain is listed behind the links followed so far, with the table that it ends at. -/
theorem follow?_of_mem_chainsFrom (byName : context.ByName)
    (here : context.table? key = some table) {chains : List (List String × Table)}
    (found : context.chainsFrom fuel visited chain key = some chains) {followed : List String}
    (mem : (followed, last) ∈ chains) :
    ∃ names, names ≠ [] ∧ followed = chain ++ names ∧ context.follow? table names = some last := by
  induction fuel generalizing visited chain key table chains with
  | zero => cases found
  | succ fuel ih =>
    rw [chainsFrom_succ, here] at found
    obtain ⟨results, all, rfl⟩ := Option.map_eq_some_iff.1 found
    obtain ⟨⟨name, link⟩, listed, result, through, mem⟩ := (mem_flatten_of_mapM all _).1 mem
    rcases chainsThrough_spec (Keyed.get?_eq_some_iff.2 listed) through with
      rfl | ⟨linked, longer, there, later, rfl⟩
    · cases mem
    · have stored := byName.table?_linked there
      rcases List.mem_cons.1 mem with same | mem
      · cases same
        refine ⟨[name], nofun, rfl, ?_⟩
        rw [follow?_cons, there]
        rfl
      · obtain ⟨rest, -, rfl, ends⟩ := ih stored later mem
        refine ⟨name :: rest, nofun, List.append_assoc _ _ _, ?_⟩
        rw [follow?_cons, there]
        exact ends

/-- **The search lists the simple chains**, each with the table that it ends at. -/
theorem mem_chains?_iff (byName : context.ByName) (here : context.table? table.name = some table)
    {chains : List (List String × Table)} (found : context.chains? table = some chains) :
    (names, last) ∈ chains ↔ context.SimpleChain table names last := by
  have simple : context.Chain [table.name] table.name names ↔
      ∃ tables, context.tablesAlong? table names = some tables ∧
        ((table :: tables).map Table.name).Nodup := by
    rw [chain_iff byName here]
    refine exists_congr fun tables => and_congr_right fun _ => ?_
    rw [List.map_cons, List.nodup_cons, and_comm]
    refine and_congr_left fun _ => ?_
    simp [eq_comm]
  constructor
  · intro mem
    obtain ⟨_, nonempty, rfl, chain⟩ := (mem_chainsFrom_iff found names).1 ⟨last, mem⟩
    obtain ⟨_, -, rfl, ends⟩ := follow?_of_mem_chainsFrom byName here found mem
    exact ⟨nonempty, ends, simple.1 chain⟩
  · intro chain
    obtain ⟨other, mem⟩ :=
      (mem_chainsFrom_iff found names).2 ⟨names, chain.nonempty, rfl, simple.2 chain.simple⟩
    obtain ⟨_, -, rfl, ends⟩ := follow?_of_mem_chainsFrom byName here found mem
    cases chain.ends.symm.trans ends
    exact mem

/-! ## The order of the list -/

/-- A chain comes before those that continue it, and chains that part at a table come in the order
in which the links of this table are stored. -/
def Precedes (context : Context) : Table → List String → List String → Prop
  | _, _, [] => False
  | _, [], _ :: _ => True
  | table, name :: rest, other :: others =>
    if name = other then
      ∃ linked, context.linked? table name = some linked ∧ context.Precedes linked rest others
    else [name, other].Sublist table.links.keys

theorem not_precedes_self (table : Table) (names : List String) :
    ¬ context.Precedes table names names := by
  induction names generalizing table with
  | nil => exact id
  | cons name rest ih =>
    rw [Precedes, if_pos rfl]
    rintro ⟨linked, -, precedes⟩
    exact ih linked precedes

theorem Precedes.asymm {others : List String} (precedes : context.Precedes table names others) :
    ¬ context.Precedes table others names := by
  induction names generalizing table others with
  | nil => exact fun back => by cases others <;> exact back
  | cons name rest ih =>
    cases others with
    | nil => exact precedes.elim
    | cons other others =>
      intro back
      by_cases same : name = other
      · subst same
        rw [Precedes, if_pos rfl] at precedes back
        obtain ⟨linked, there, precedes⟩ := precedes
        obtain ⟨_, again, back⟩ := back
        cases there.symm.trans again
        exact ih precedes back
      · rw [Precedes, if_neg same] at precedes
        rw [Precedes, if_neg (Ne.symm same)] at back
        exact not_sublist_swap table.links.distinct precedes back

/-- The links of a table are followed in the order in which they are stored. -/
theorem pairwise_links (table : Table) :
    table.links.entries.Pairwise fun entry other =>
      entry.1 ≠ other.1 ∧ [entry.1, other.1].Sublist table.links.keys := by
  refine List.pairwise_iff_forall_sublist.2 fun {entry other} pair => ?_
  have names : [entry.1, other.1].Sublist table.links.keys := pair.map Prod.fst
  exact ⟨(List.pairwise_cons.1 (table.links.distinct.sublist names)).1 _ List.mem_cons_self, names⟩

/-- What is listed behind a link begins with this link. -/
theorem exists_of_mem_chainsThrough (byName : context.ByName) {link : Link}
    (listed : (name, link) ∈ table.links.entries) {result : List (List String × Table)}
    (through : context.chainsThrough fuel visited chain (name, link) = some result)
    {entry : List String × Table} (mem : entry ∈ result) :
    ∃ rest, entry.1 = chain ++ name :: rest := by
  rcases chainsThrough_spec (Keyed.get?_eq_some_iff.2 listed) through with
    rfl | ⟨linked, longer, there, later, rfl⟩
  · cases mem
  · rcases List.mem_cons.1 mem with rfl | mem
    · exact ⟨[], rfl⟩
    · have stored := byName.table?_linked there
      obtain ⟨rest, -, split, -⟩ := follow?_of_mem_chainsFrom byName stored later mem
      exact ⟨rest, split.trans (List.append_assoc ..)⟩

/-- The order of two chains that begin with the links followed so far. -/
def PrecedesBehind (context : Context) (followed : List String) (table : Table)
    (entry other : List String × Table) : Prop :=
  ∃ names others, entry.1 = followed ++ names ∧ other.1 = followed ++ others ∧
    context.Precedes table names others

theorem PrecedesBehind.of_concat {entry other : List String × Table}
    (there : context.linked? table name = some linked)
    (precedes : context.PrecedesBehind (chain ++ [name]) linked entry other) :
    context.PrecedesBehind chain table entry other := by
  obtain ⟨names, others, split, split', precedes⟩ := precedes
  refine ⟨name :: names, name :: others, split.trans (List.append_assoc ..),
    split'.trans (List.append_assoc ..), ?_⟩
  rw [Precedes, if_pos rfl]
  exact ⟨linked, there, precedes⟩

/-- A chain comes before those that continue it. -/
theorem precedesBehind_of_longer {rest : List String} {entry : List String × Table}
    (there : context.linked? table name = some linked) (nonempty : rest ≠ [])
    (split : entry.1 = chain ++ [name] ++ rest) :
    context.PrecedesBehind chain table (chain ++ [name], linked) entry := by
  refine PrecedesBehind.of_concat there ⟨[], rest, (List.append_nil _).symm, split, ?_⟩
  cases rest with
  | nil => exact absurd rfl nonempty
  | cons next rest => trivial

/-- What is listed behind different links is in the order of the links. -/
theorem precedesBehind_of_links (byName : context.ByName) {link link' : Link} {name' : String}
    (listed : (name, link) ∈ table.links.entries) (listed' : (name', link') ∈ table.links.entries)
    (apart : name ≠ name') (before : [name, name'].Sublist table.links.keys)
    {result result' : List (List String × Table)}
    (through : context.chainsThrough fuel visited chain (name, link) = some result)
    (through' : context.chainsThrough fuel visited chain (name', link') = some result')
    {entry other : List String × Table} (mem : entry ∈ result) (mem' : other ∈ result') :
    context.PrecedesBehind chain table entry other := by
  obtain ⟨rest, split⟩ := exists_of_mem_chainsThrough byName listed through mem
  obtain ⟨rest', split'⟩ := exists_of_mem_chainsThrough byName listed' through' mem'
  refine ⟨name :: rest, name' :: rest', split, split', ?_⟩
  rw [Precedes, if_neg apart]
  exact before

/-- The chains of the search are in order. -/
theorem pairwise_chainsFrom (byName : context.ByName) (here : context.table? key = some table)
    {chains : List (List String × Table)}
    (found : context.chainsFrom fuel visited chain key = some chains) :
    chains.Pairwise (context.PrecedesBehind chain table) := by
  induction fuel generalizing visited chain key table chains with
  | zero => cases found
  | succ fuel ih =>
    rw [chainsFrom_succ, here] at found
    obtain ⟨results, all, rfl⟩ := Option.map_eq_some_iff.1 found
    have each := eq_map_of_mapM all
    rw [List.pairwise_flatten]
    constructor
    · intro result mem
      have listed : some result ∈ results.map some := List.mem_map_of_mem mem
      rw [each] at listed
      obtain ⟨⟨name, link⟩, listed, through⟩ := List.mem_map.1 listed
      rcases chainsThrough_spec (Keyed.get?_eq_some_iff.2 listed) through with
        rfl | ⟨linked, longer, there, later, rfl⟩
      · exact List.Pairwise.nil
      · have stored := byName.table?_linked there
        refine List.pairwise_cons.2 ⟨fun entry mem => ?_, (ih stored later).imp (.of_concat there)⟩
        obtain ⟨rest, nonempty, split, -⟩ := follow?_of_mem_chainsFrom byName stored later mem
        exact precedesBehind_of_longer there nonempty split
    · have parted : (results.map some).Pairwise fun behind behind' =>
          ∀ result ∈ behind, ∀ result' ∈ behind', ∀ entry ∈ result, ∀ other ∈ result',
            context.PrecedesBehind chain table entry other := by
        rw [each, List.pairwise_map]
        refine (pairwise_links table).imp_of_mem ?_
        rintro ⟨name, link⟩ ⟨name', link'⟩ listed listed' ⟨apart, before⟩
        intro result through result' through' entry mem other mem'
        exact precedesBehind_of_links byName listed listed' apart before through through' mem mem'
      exact (List.pairwise_map.1 parted).imp fun parts => parts _ rfl _ rfl

theorem pairwise_chains? (byName : context.ByName)
    (here : context.table? table.name = some table) {chains : List (List String × Table)}
    (found : context.chains? table = some chains) :
    chains.Pairwise fun entry other => context.Precedes table entry.1 other.1 := by
  refine (pairwise_chainsFrom byName here found).imp ?_
  rintro ⟨_, last⟩ ⟨_, last'⟩ ⟨names, others, rfl, rfl, precedes⟩
  exact precedes

/-- The search comes to an end. -/
theorem exists_chains? (byName : context.ByName) (table : Table) :
    ∃ chains, context.chains? table = some chains := by
  refine Option.ne_none_iff_exists'.1 fun none => ?_
  obtain ⟨names, size, chain⟩ := chains?_eq_none_iff.1 none (context.tables.size + 1)
  have short := chain.length_le byName.linksByName
  have few := context.card_unseen_le [table.name]
  omega

end Context

end RuleEditor
