import Mathlib.Data.Finset.Card
import RuleEditor.Context.Options
import RuleEditor.Proofs.Context.RoundTrip

/-!
# Chains of links

**What is followed** (`Context.Chain`). From a table the search follows every link to a table that
is there, unless the key of that table is the name of one that the chain has been through. It goes
on from the table that is stored under the name of the linked one.

**The bound loses nothing.** The search gives up after `Context.chainBound` links. A chain of that
length goes on for ever (`Context.exists_chain_of_long`): between two names that are new to it, only
the key of the current table changes, and there are only so many keys. So there is no answer exactly
if there are chains of every length.

**Tables stored under other names.** If the tables that links lead to are stored under their own
names, every link leads to a key that is new to the chain, and no chain is as long as there are
tables. Otherwise a chain may come through one table again and again, a few times or for ever.
-/

namespace RuleEditor

namespace Context

variable {context : Context} {visited : List String} {key name : String} {names : List String}
  {linked : Table} {fuel : Nat}

/-! ## What is followed -/

/-- The link of this name is followed from the table stored under `key`. -/
def Follows (context : Context) (visited : List String) (key name : String) (linked : Table) :
    Prop :=
  ∃ table link, context.table? key = some table ∧ (name, link) ∈ table.links.entries ∧
    link.table ∉ visited ∧ context.table? link.table = some linked

/-- The links of these names are followed one after another, from the table stored under `key`. -/
def Chain (context : Context) : List String → String → List String → Prop
  | _, _, [] => True
  | visited, key, name :: rest => ∃ linked, context.Follows visited key name linked ∧
      context.Chain (visited ++ [linked.name]) linked.name rest

/-- The links of these names are followed from the table whose rows trigger the rule. -/
def TriggerChain (context : Context) (names : List String) : Prop :=
  ∃ trigger, context.triggerTable? = some trigger ∧
    context.Chain [trigger.name] trigger.name names

theorem Chain.take (chain : context.Chain visited key names) (count : Nat) :
    context.Chain visited key (names.take count) := by
  induction names generalizing visited key count with
  | nil =>
    rw [List.take_nil]
    trivial
  | cons name rest ih =>
    cases count with
    | zero => trivial
    | succ count =>
      obtain ⟨linked, follows, chain⟩ := chain
      exact ⟨linked, follows, ih chain count⟩

/-- Only the names matter that a chain has been through, not how often and in which order. -/
theorem Chain.congr {others : List String} (same : ∀ name, name ∈ visited ↔ name ∈ others)
    (chain : context.Chain visited key names) : context.Chain others key names := by
  induction names generalizing visited others key with
  | nil => trivial
  | cons name rest ih =>
    obtain ⟨linked, ⟨table, link, here, listed, new, there⟩, chain⟩ := chain
    have new : link.table ∉ others := fun seen => new ((same _).2 seen)
    refine ⟨linked, ⟨table, link, here, listed, new, there⟩, ih (fun name => ?_) chain⟩
    rw [List.mem_append, List.mem_append, same name]

/-- There is a chain of so many links. -/
def HasChain (context : Context) (visited : List String) (key : String) (length : Nat) : Prop :=
  ∃ names, names.length = length ∧ context.Chain visited key names

theorem hasChain_succ_iff {length : Nat} :
    context.HasChain visited key (length + 1) ↔ ∃ name linked,
      context.Follows visited key name linked ∧
        context.HasChain (visited ++ [linked.name]) linked.name length := by
  constructor
  · rintro ⟨_ | ⟨name, rest⟩, size, chain⟩
    · cases size
    · obtain ⟨linked, follows, chain⟩ := chain
      exact ⟨name, linked, follows, rest, Nat.succ.inj size, chain⟩
  · rintro ⟨name, linked, follows, rest, size, chain⟩
    exact ⟨name :: rest, congrArg (· + 1) size, linked, follows, chain⟩

theorem HasChain.mono {length shorter : Nat} (long : context.HasChain visited key length)
    (bound : shorter ≤ length) : context.HasChain visited key shorter := by
  obtain ⟨names, size, chain⟩ := long
  refine ⟨names.take shorter, ?_, chain.take shorter⟩
  rw [List.length_take, size, Nat.min_eq_left bound]

/-! ## The search -/

theorem mapM_eq_none_iff {α β : Type} {f : α → Option β} {items : List α} :
    items.mapM f = none ↔ ∃ item ∈ items, f item = none := by
  induction items with
  | nil => simp
  | cons item rest ih =>
    rw [List.mapM_cons, List.exists_mem_cons_iff, ← ih]
    cases f item <;> cases rest.mapM f <;> simp

theorem mem_flatten_of_mapM {α β : Type} {f : α → Option (List β)} {items : List α}
    {results : List (List β)} (all : items.mapM f = some results) (value : β) :
    value ∈ results.flatten ↔ ∃ item ∈ items, ∃ result, f item = some result ∧ value ∈ result := by
  induction items generalizing results with
  | nil =>
    cases all
    simp
  | cons item rest ih =>
    rw [List.mapM_cons] at all
    obtain ⟨first, here, all⟩ := Option.bind_eq_some_iff.1 all
    obtain ⟨later, others, eq⟩ := Option.bind_eq_some_iff.1 all
    cases eq
    rw [List.flatten_cons, List.mem_append, ih others, List.exists_mem_cons_iff]
    simp [here]

/-- The chains that continue `chain` by a given link. -/
def chainsThrough (context : Context) (fuel : Nat) (visited chain : List String) :
    String × Link → Option (List (List String × Table)) := fun (name, link) =>
  if link.table ∈ visited then some []
  else
    match context.table? link.table with
    | none => some []
    | some linked => do
      let chain := chain ++ [name]
      let longer ← context.chainsFrom fuel (visited ++ [linked.name]) chain linked.name
      return (chain, linked) :: longer

theorem chainsFrom_succ {chain : List String} :
    context.chainsFrom (fuel + 1) visited chain key =
      match context.table? key with
      | none => some []
      | some table =>
        (table.links.entries.mapM (context.chainsThrough fuel visited chain)).map
          List.flatten := by
  rw [chainsFrom]
  cases context.table? key with
  | none => rfl
  | some table => exact Option.map_eq_bind.symm

theorem chainsThrough_eq_none_iff {chain : List String} {link : Link} :
    context.chainsThrough fuel visited chain (name, link) = none ↔
      ∃ linked, link.table ∉ visited ∧ context.table? link.table = some linked ∧
        context.chainsFrom fuel (visited ++ [linked.name]) (chain ++ [name]) linked.name =
          none := by
  rw [chainsThrough]
  by_cases seen : link.table ∈ visited
  · simp [seen]
  · cases there : context.table? link.table with
    | none => simp [seen]
    | some linked => simpa [seen] using Option.eq_none_iff_forall_ne_some.symm

theorem mem_of_chainsThrough {chain : List String} {link : Link}
    {chains : List (List String × Table)}
    (found : context.chainsThrough fuel visited chain (name, link) = some chains)
    (entry : List String × Table) :
    entry ∈ chains ↔ ∃ linked longer, link.table ∉ visited ∧
      context.table? link.table = some linked ∧
      context.chainsFrom fuel (visited ++ [linked.name]) (chain ++ [name]) linked.name =
        some longer ∧ (entry = (chain ++ [name], linked) ∨ entry ∈ longer) := by
  rw [chainsThrough] at found
  by_cases seen : link.table ∈ visited
  · rw [if_pos seen] at found
    cases found
    simp [seen]
  · rw [if_neg seen] at found
    cases there : context.table? link.table with
    | none =>
      rw [there] at found
      cases found
      simp
    | some linked =>
      rw [there] at found
      obtain ⟨longer, later, eq⟩ := Option.bind_eq_some_iff.1 found
      cases eq
      simp [seen, later]

/-- **The search has no answer exactly if there is a chain as long as its fuel.** -/
theorem chainsFrom_eq_none_iff {chain : List String} :
    context.chainsFrom fuel visited chain key = none ↔ context.HasChain visited key fuel := by
  induction fuel generalizing visited chain key with
  | zero => exact iff_of_true rfl ⟨[], rfl, trivial⟩
  | succ fuel ih =>
    rw [hasChain_succ_iff, chainsFrom_succ]
    cases here : context.table? key with
    | none => simp [Follows, here]
    | some table =>
      rw [Option.map_eq_none_iff, mapM_eq_none_iff]
      constructor
      · rintro ⟨⟨name, link⟩, listed, none⟩
        obtain ⟨linked, new, there, none⟩ := chainsThrough_eq_none_iff.1 none
        exact ⟨name, linked, ⟨table, link, here, listed, new, there⟩, ih.1 none⟩
      · rintro ⟨name, linked, ⟨_, link, known, listed, new, there⟩, long⟩
        cases here.symm.trans known
        refine ⟨(name, link), listed, chainsThrough_eq_none_iff.2 ?_⟩
        exact ⟨linked, new, there, ih.2 long⟩

/-- **The search lists the chains of at least one link**, each behind the links followed so far. -/
theorem mem_chainsFrom_iff {chain : List String} {chains : List (List String × Table)}
    (found : context.chainsFrom fuel visited chain key = some chains) (followed : List String) :
    (∃ table, (followed, table) ∈ chains) ↔
      ∃ names, names ≠ [] ∧ followed = chain ++ names ∧ context.Chain visited key names := by
  induction fuel generalizing visited chain key chains with
  | zero => cases found
  | succ fuel ih =>
    rw [chainsFrom_succ] at found
    cases here : context.table? key with
    | none =>
      rw [here] at found
      cases found
      refine iff_of_false (fun ⟨_, mem⟩ => nomatch mem) ?_
      rintro ⟨_ | ⟨name, rest⟩, nonempty, -, chain⟩
      · exact nonempty rfl
      · obtain ⟨linked, ⟨table, link, known, -⟩, -⟩ := chain
        cases here.symm.trans known
    | some table =>
      rw [here] at found
      obtain ⟨results, all, rfl⟩ := Option.map_eq_some_iff.1 found
      constructor
      · rintro ⟨last, mem⟩
        obtain ⟨⟨name, link⟩, listed, result, through, mem⟩ := (mem_flatten_of_mapM all _).1 mem
        obtain ⟨linked, longer, new, there, later, this⟩ := (mem_of_chainsThrough through _).1 mem
        have follows : context.Follows visited key name linked :=
          ⟨table, link, here, listed, new, there⟩
        rcases this with eq | mem
        · exact ⟨[name], nofun, congrArg Prod.fst eq, linked, follows, trivial⟩
        · obtain ⟨rest, -, rfl, more⟩ := (ih later).1 ⟨last, mem⟩
          exact ⟨name :: rest, nofun, List.append_assoc _ _ _, linked, follows, more⟩
      · rintro ⟨_ | ⟨name, rest⟩, nonempty, rfl, followed⟩
        · exact absurd rfl nonempty
        obtain ⟨linked, ⟨_, link, known, listed, new, there⟩, more⟩ := followed
        cases here.symm.trans known
        have answered : context.chainsThrough fuel visited chain (name, link) ≠ none := by
          intro none
          rw [mapM_eq_none_iff.2 ⟨(name, link), listed, none⟩] at all
          cases all
        obtain ⟨result, through⟩ := Option.ne_none_iff_exists'.1 answered
        have later : context.chainsFrom fuel (visited ++ [linked.name]) (chain ++ [name])
            linked.name ≠ none := fun none =>
          answered (chainsThrough_eq_none_iff.2 ⟨linked, new, there, none⟩)
        obtain ⟨longer, later⟩ := Option.ne_none_iff_exists'.1 later
        have listed : ∀ entry ∈ result, entry ∈ results.flatten := fun entry mem =>
          (mem_flatten_of_mapM all entry).2 ⟨(name, link), listed, result, through, mem⟩
        by_cases last : rest = []
        · refine ⟨linked, listed _ ((mem_of_chainsThrough through _).2 ?_)⟩
          exact ⟨linked, longer, new, there, later, Or.inl (by rw [last])⟩
        · have split : chain ++ name :: rest = chain ++ [name] ++ rest := by simp
          obtain ⟨table, mem⟩ := (ih later).2 ⟨rest, last, split, more⟩
          refine ⟨table, listed _ ((mem_of_chainsThrough through _).2 ?_)⟩
          exact ⟨linked, longer, new, there, later, Or.inr mem⟩

/-! ## Chains without end -/

/-- A table is stored under the key from which a link is followed. -/
theorem HasChain.exists_table {length : Nat} (long : context.HasChain visited key length)
    (pos : 0 < length) : ∃ table, context.table? key = some table := by
  obtain ⟨length, rfl⟩ := Nat.exists_eq_succ_of_ne_zero (Nat.ne_of_gt pos)
  obtain ⟨name, linked, ⟨table, link, here, -⟩, -⟩ := hasChain_succ_iff.1 long
  exact ⟨table, here⟩

/-- A name that the chain has been through already makes no difference. -/
theorem hasChain_append_iff {length : Nat} (seen : name ∈ visited) :
    context.HasChain (visited ++ [name]) key length ↔ context.HasChain visited key length := by
  have same : ∀ other, other ∈ visited ++ [name] ↔ other ∈ visited := by
    intro other
    rw [List.mem_append, List.mem_singleton, or_iff_left_of_imp]
    rintro rfl
    exact seen
  constructor
  · exact fun ⟨names, size, chain⟩ => ⟨names, size, chain.congr same⟩
  · exact fun ⟨names, size, chain⟩ => ⟨names, size, chain.congr fun other => (same other).symm⟩

/-- The keys of tables that are not among the names that the chain has been through. -/
def unseen (context : Context) (visited : List String) : Finset String :=
  context.tables.keys.toFinset.filter (· ∉ visited)

theorem mem_unseen_iff :
    key ∈ context.unseen visited ↔ (∃ table, context.table? key = some table) ∧ key ∉ visited := by
  rw [unseen, Finset.mem_filter, List.mem_toFinset, Keyed.mem_keys_iff]
  rfl

theorem card_keys (context : Context) : context.tables.keys.toFinset.card = context.tables.size :=
  (List.toFinset_card_of_nodup context.tables.distinct).trans (List.length_map Prod.fst)

theorem card_unseen_le (context : Context) (visited : List String) :
    (context.unseen visited).card ≤ context.tables.size := by
  rw [← card_keys]
  exact Finset.card_filter_le _ _

/-- A new name is one fewer to come. -/
theorem card_unseen_append (new : name ∈ context.unseen visited) :
    (context.unseen (visited ++ [name])).card + 1 = (context.unseen visited).card := by
  have erased : context.unseen (visited ++ [name]) = (context.unseen visited).erase name := by
    ext other
    simp only [mem_unseen_iff, Finset.mem_erase, List.mem_append, List.mem_singleton]
    tauto
  rw [erased, Finset.card_erase_add_one new]

/-- Sets that shrink come to a stop while there is something left. -/
theorem exists_subset_succ {sets : Nat → Finset String} (shrinks : ∀ n, sets (n + 1) ⊆ sets n)
    {base bound : Nat} (few : (sets base).card ≤ bound) (left : (sets (base + bound)).Nonempty) :
    ∃ n, base ≤ n ∧ n ≤ base + bound ∧ sets n ⊆ sets (n + 1) := by
  by_contra moving
  have lost : ∀ i ≤ bound, (sets (base + i)).card + i ≤ (sets base).card := by
    intro i within
    induction i with
    | zero => exact Nat.le_refl _
    | succ i ih =>
      have back : ¬sets (base + i) ⊆ sets (base + i + 1) := fun back =>
        moving ⟨base + i, Nat.le_add_right _ _, by omega, back⟩
      have fewer : (sets (base + (i + 1))).card < (sets (base + i)).card :=
        Finset.card_lt_card ⟨shrinks (base + i), back⟩
      have before := ih (Nat.le_of_succ_le within)
      omega
  have all := lost bound (Nat.le_refl _)
  have pos := Finset.card_pos.2 left
  omega

/-- If long chains can be made longer once they come to a new name, a chain that is longer by the
number of tables can be made longer too. -/
theorem hasChain_of_new {base : Nat} (pos : 0 < base)
    (new : ∀ name, name ∉ visited → ∀ length, base ≤ length →
      context.HasChain (visited ++ [name]) name length →
        ∀ more, context.HasChain (visited ++ [name]) name more)
    (long : context.HasChain visited key (base + context.tables.size)) (length : Nat) :
    context.HasChain visited key length := by
  classical
  let starts (n : Nat) : Finset String :=
    context.tables.keys.toFinset.filter (context.HasChain visited · n)
  have mem_starts : ∀ {n key}, 0 < n → context.HasChain visited key n → key ∈ starts n := by
    intro n key pos chain
    refine Finset.mem_filter.2 ⟨?_, chain⟩
    rw [List.mem_toFinset, Keyed.mem_keys_iff]
    exact chain.exists_table pos
  have shrinks : ∀ n, starts (n + 1) ⊆ starts n := fun n =>
    Finset.monotone_filter_right _ fun _ _ chain => chain.mono (Nat.le_succ n)
  have few : (starts base).card ≤ context.tables.size := by
    rw [← card_keys]
    exact Finset.card_filter_le _ _
  obtain ⟨n, after, before, stable⟩ := exists_subset_succ shrinks few
    ⟨key, mem_starts (Nat.add_pos_left pos _) long⟩
  have longer : ∀ i key, context.HasChain visited key n → context.HasChain visited key (n + i) := by
    intro i
    induction i with
    | zero => exact fun _ chain => chain
    | succ i ih =>
      intro key chain
      have start : key ∈ starts (n + 1) := stable (mem_starts (Nat.lt_of_lt_of_le pos after) chain)
      obtain ⟨name, linked, follows, rest⟩ := hasChain_succ_iff.1 (Finset.mem_filter.1 start).2
      refine hasChain_succ_iff.2 ⟨name, linked, follows, ?_⟩
      by_cases seen : linked.name ∈ visited
      · rw [hasChain_append_iff seen] at rest ⊢
        exact ih linked.name rest
      · exact new linked.name seen n after rest (n + i)
  exact (longer length key (long.mono before)).mono (Nat.le_add_left _ _)

/-- **A chain that is long enough goes on for ever.** -/
theorem exists_chain_of_long {left : Nat} (few : (context.unseen visited).card ≤ left)
    (long : context.HasChain visited key ((left + 1) * context.tables.size + 1)) (length : Nat) :
    context.HasChain visited key length := by
  induction left generalizing visited key length with
  | zero =>
    refine hasChain_of_new Nat.one_pos (fun name new more after chain => ?_)
      (long.mono (by omega)) length
    -- There is no name left that could be new.
    have key : name ∈ context.unseen visited :=
      mem_unseen_iff.2 ⟨chain.exists_table (Nat.lt_of_lt_of_le Nat.one_pos after), new⟩
    have pos := Finset.card_pos.2 ⟨name, key⟩
    omega
  | succ left ih =>
    have base : 0 < (left + 1) * context.tables.size + 1 := Nat.succ_pos _
    refine hasChain_of_new base (fun name new more after chain => ?_)
      (long.mono (by rw [Nat.succ_mul (left + 1)]; omega)) length
    have key : name ∈ context.unseen visited :=
      mem_unseen_iff.2 ⟨chain.exists_table (Nat.lt_of_lt_of_le base after), new⟩
    have fewer := card_unseen_append key
    exact ih (by omega) (chain.mono after)

/-- **The bound of the search loses nothing**: there is no answer exactly if there are chains of
every length. -/
theorem chains?_eq_none_iff {table : Table} :
    context.chains? table = none ↔ ∀ length, context.HasChain [table.name] table.name length := by
  rw [chains?, chainsFrom_eq_none_iff]
  refine ⟨fun long => exists_chain_of_long (context.card_unseen_le _) (long.mono ?_),
    fun endless => endless _⟩
  rw [chainBound]
  have smaller : (context.tables.size + 1) * context.tables.size ≤
      (context.tables.size + 1) * (context.tables.size + 1) :=
    Nat.mul_le_mul_left _ (Nat.le_succ _)
  omega

/-! ## Tables stored under their own names -/

/-- The tables that links lead to are stored under their own names. -/
def LinksByName (context : Context) : Prop :=
  ∀ key table name link linked, context.table? key = some table →
    (name, link) ∈ table.links.entries → context.table? link.table = some linked →
      linked.name = link.table

/-- Every link leads to a name that is new to the chain. -/
theorem Chain.length_le (byName : context.LinksByName)
    (chain : context.Chain visited key names) : names.length ≤ (context.unseen visited).card := by
  induction names generalizing visited key with
  | nil => exact Nat.zero_le _
  | cons name rest ih =>
    obtain ⟨linked, ⟨table, link, here, listed, new, there⟩, chain⟩ := chain
    have same := byName key table name link linked here listed there
    have one := card_unseen_append (mem_unseen_iff.2 ⟨⟨linked, same ▸ there⟩, same ▸ new⟩)
    have others := ih chain
    rw [List.length_cons]
    omega

/-- A chain from the trigger's table is shorter than there are tables. -/
theorem TriggerChain.length_lt (byName : context.LinksByName) (chain : context.TriggerChain names) :
    names.length < context.tables.size := by
  obtain ⟨trigger, there, chain⟩ := chain
  obtain ⟨key, -, stored⟩ := Option.bind_eq_some_iff.1 there
  have all := context.card_unseen_le []
  by_cases none : names = []
  · have pos := Finset.card_pos.2 ⟨key, mem_unseen_iff.2 ⟨⟨trigger, stored⟩, List.not_mem_nil⟩⟩
    rw [none, List.length_nil]
    omega
  · have long : context.HasChain [trigger.name] trigger.name names.length := ⟨names, rfl, chain⟩
    have here := long.exists_table (List.length_pos_iff.2 none)
    have one : (context.unseen [trigger.name]).card + 1 = (context.unseen []).card :=
      card_unseen_append (mem_unseen_iff.2 ⟨here, List.not_mem_nil⟩)
    have bound := chain.length_le byName
    omega

/-! ## Operands on offer -/

theorem operandOptions?_eq_none_iff {next : Nat} :
    (context.operandOptions? next).1 = none ↔
      ∃ trigger, context.triggerTable? = some trigger ∧ context.chains? trigger = none := by
  rw [operandOptions?]
  cases context.triggerTable? with
  | none => exact iff_of_false nofun nofun
  | some trigger =>
    dsimp only
    cases found : context.chains? trigger with
    | none => exact iff_of_true rfl ⟨trigger, rfl, found⟩
    | some chains =>
      refine iff_of_false nofun ?_
      rintro ⟨_, ⟨⟩, none⟩
      cases found.symm.trans none

/-- **When there is an answer, and how long chains get.** The operands on offer are listed exactly
if there is a bound on the chains of links that are followed from the trigger's table. If the tables
that links lead to are stored under their own names, they are always listed, and every chain has
fewer links than there are tables. The chains that the list is made from are those that are followed. -/
theorem operandOptions?_isSome_iff (context : Context) (next : Nat) :
    ((context.operandOptions? next).1.isSome ↔
      ∃ bound, ∀ names, context.TriggerChain names → names.length ≤ bound) ∧
    (context.LinksByName → (context.operandOptions? next).1.isSome ∧
      ∀ names, context.TriggerChain names → names.length < context.tables.size) ∧
    ∀ trigger chains, context.triggerTable? = some trigger → context.chains? trigger = some chains →
      ∀ names, (∃ table, (names, table) ∈ chains) ↔ names ≠ [] ∧ context.TriggerChain names := by
  have bounded : (context.operandOptions? next).1.isSome ↔
      ∃ bound, ∀ names, context.TriggerChain names → names.length ≤ bound := by
    rw [← Option.ne_none_iff_isSome, Ne, operandOptions?_eq_none_iff]
    constructor
    · intro answered
      cases there : context.triggerTable? with
      | none =>
        refine ⟨0, fun names chain => ?_⟩
        obtain ⟨trigger, known, -⟩ := chain
        cases there.symm.trans known
      | some trigger =>
        have finite : ¬∀ length, context.HasChain [trigger.name] trigger.name length := by
          intro endless
          exact answered ⟨trigger, there, chains?_eq_none_iff.2 endless⟩
        obtain ⟨bound, short⟩ := not_forall.1 finite
        refine ⟨bound, fun names chain => ?_⟩
        obtain ⟨_, known, chain⟩ := chain
        cases there.symm.trans known
        by_contra long
        have long : context.HasChain [trigger.name] trigger.name names.length := ⟨names, rfl, chain⟩
        exact short (long.mono (by omega))
    · rintro ⟨bound, short⟩ ⟨trigger, there, none⟩
      obtain ⟨names, size, chain⟩ := chains?_eq_none_iff.1 none (bound + 1)
      have within := short names ⟨trigger, there, chain⟩
      omega
  refine ⟨bounded, fun byName => ?_, fun trigger chains there found names => ?_⟩
  · have short : ∀ names, context.TriggerChain names → names.length < context.tables.size :=
      fun names chain => chain.length_lt byName
    exact ⟨bounded.2 ⟨_, fun names chain => Nat.le_of_lt (short names chain)⟩, short⟩
  · rw [mem_chainsFrom_iff found]
    constructor
    · rintro ⟨_, nonempty, rfl, chain⟩
      exact ⟨nonempty, trigger, there, chain⟩
    · rintro ⟨nonempty, _, known, chain⟩
      cases there.symm.trans known
      exact ⟨names, nonempty, rfl, chain⟩

/-- Accounts, cards and companies link to the table stored as payments, which calls itself
transactions. -/
def paymentsAsTransactions : Context :=
  let transactions := (((Table.empty "transactions").withLink "account" "accounts").withLink "card"
    "cards").withLink "company" "companies"
  let paid (name : String) : Table := (Table.empty name).withLink "last" "payments"
  let tables := [("transactions", transactions), ("accounts", paid "accounts"),
    ("cards", paid "cards"), ("companies", paid "companies"),
    ("payments", Table.empty "transactions")]
  { empty with tables := Keyed.ofList tables, trigger := some "transactions" }

/-- Orders link to the table stored as order, which calls itself orders. -/
def orderAsOrders : Context :=
  let tables := [("orders", (Table.empty "orders").withLink "previous" "order"),
    ("order", Table.empty "orders")]
  { empty with tables := Keyed.ofList tables, trigger := some "orders" }

/-- Among five tables a chain of six links comes through the transactions three times; among two a
chain comes through the orders for ever. -/
theorem chains_of_aliases :
    (∃ text, parse text = .ok paymentsAsTransactions ∧ paymentsAsTransactions.tables.size = 5 ∧
      (paymentsAsTransactions.operandOptions? 0).1.isSome ∧
      paymentsAsTransactions.TriggerChain ["account", "last", "card", "last", "company", "last"]) ∧
    ∃ text, parse text = .ok orderAsOrders ∧ orderAsOrders.tables.size = 2 ∧
      (orderAsOrders.operandOptions? 0).1 = none := by
  refine ⟨⟨_, parse_toJson _, rfl, by decide +kernel, _, rfl, ?_⟩, _, parse_toJson _, rfl, ?_⟩
  · refine ⟨_, ⟨_, ⟨"accounts"⟩, rfl, .head _, by decide, rfl⟩, ?_⟩
    refine ⟨_, ⟨_, ⟨"payments"⟩, rfl, .head _, by decide, rfl⟩, ?_⟩
    refine ⟨_, ⟨_, ⟨"cards"⟩, rfl, .tail _ (.head _), by decide, rfl⟩, ?_⟩
    refine ⟨_, ⟨_, ⟨"payments"⟩, rfl, .head _, by decide, rfl⟩, ?_⟩
    refine ⟨_, ⟨_, ⟨"companies"⟩, rfl, .tail _ (.tail _ (.head _)), by decide, rfl⟩, ?_⟩
    exact ⟨_, ⟨_, ⟨"payments"⟩, rfl, .head _, by decide, rfl⟩, trivial⟩
  · exact Option.isNone_iff_eq_none.1 (by decide +kernel)

end Context

end RuleEditor
