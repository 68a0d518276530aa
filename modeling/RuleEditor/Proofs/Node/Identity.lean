import Mathlib.Order.Interval.Finset.Nat
import Mathlib.Order.Interval.Multiset
import Mathlib.Tactic.Abel
import RuleEditor.Proofs.Path.Walk

/-!
# Identities of new nodes

**Identities** (`Node.ids`). The identities of the nodes of a tree form a multiset: a tree repeats
none exactly if its multiset has no duplicates. Replacing a node takes its identities out of the
multiset and puts those of the new node in (`Node.exists_ids_put?`).

**Taking** (`Taken`). A step that builds nodes takes identities from the supply, and is given some
with the nodes that it builds on. What it gives has no other identities, and none more often. The
bound is one of multisets, so it is passed on from step to step by adding up, and in the end it says
that new nodes differ from each other and from all that were there.

**Trees of new nodes** (`Node.IsNew`). A copy of a tree, and a tree that is read from its stored
form, consist of new nodes only.
-/

namespace RuleEditor

namespace Node

variable {node operand root : Node} {segment : Segment} {path : Path}

/-! ## Identities -/

mutual

/-- The identities of the nodes of a tree, each as often as it occurs. -/
def ids : Node → Multiset Nat
  | ⟨id, _, _, children, named⟩ => {id} + (idsAll children + idsNamed named)

def idsAll : List Node → Multiset Nat
  | [] => 0
  | node :: rest => ids node + idsAll rest

def idsNamed : List (String × Node) → Multiset Nat
  | [] => 0
  | (_, node) :: rest => ids node + idsNamed rest

end

/-- The identities of a tree that may be missing. -/
def idsOptional (node : Option Node) : Multiset Nat := node.elim 0 ids

theorem ids_eq (node : Node) :
    node.ids = {node.id} + (idsAll node.children + idsNamed node.named) := by
  obtain ⟨id, name, constant, children, named⟩ := node
  rfl

@[simp] theorem idsAll_nil : idsAll [] = 0 := rfl

@[simp] theorem idsAll_cons (node : Node) (rest : List Node) :
    idsAll (node :: rest) = node.ids + idsAll rest := rfl

@[simp] theorem idsNamed_nil : idsNamed [] = 0 := rfl

@[simp] theorem idsNamed_cons (key : String) (node : Node) (rest : List (String × Node)) :
    idsNamed ((key, node) :: rest) = node.ids + idsNamed rest := rfl

@[simp] theorem idsAll_append (nodes more : List Node) :
    idsAll (nodes ++ more) = idsAll nodes + idsAll more := by
  induction nodes with
  | nil => simp
  | cons node rest ih => simp [ih, add_assoc]

theorem idsAll_le_of_sublist {nodes more : List Node} (sublist : nodes.Sublist more) :
    idsAll nodes ≤ idsAll more := by
  induction sublist with
  | slnil => exact le_refl _
  | cons node _ ih => exact ih.trans (Multiset.le_add_left _ _)
  | cons_cons node _ ih => exact add_le_add_right ih _

theorem ids_le_idsAll {node : Node} {nodes : List Node} (mem : node ∈ nodes) :
    node.ids ≤ idsAll nodes := by
  simpa using idsAll_le_of_sublist (List.singleton_sublist.2 mem)

/-- Storing an operand drops the one that was stored under its key, if there was one. -/
theorem idsNamed_store_le (key : String) (node : Node) (named : List (String × Node)) :
    idsNamed (Entries.store key node named) ≤ node.ids + idsNamed named := by
  induction named with
  | nil => simp [Entries.store]
  | cons entry rest ih =>
    obtain ⟨other, old⟩ := entry
    rw [Entries.store]
    split
    · rw [idsNamed_cons, idsNamed_cons]
      exact add_le_add_right (Multiset.le_add_left _ _) _
    · rw [idsNamed_cons, idsNamed_cons, add_left_comm]
      exact add_le_add_right ih _

theorem idsNamed_storeAll_le (more : List (String × Node)) :
    ∀ before : List (String × Node),
      idsNamed (more.foldl (fun stored (key, value) => Entries.store key value stored) before) ≤
        idsNamed more + idsNamed before := by
  induction more with
  | nil => simp
  | cons entry rest ih =>
    intro before
    obtain ⟨key, node⟩ := entry
    have stored := idsNamed_store_le key node before
    calc idsNamed (rest.foldl _ (Entries.store key node before))
        ≤ idsNamed rest + idsNamed (Entries.store key node before) := ih _
      _ ≤ idsNamed rest + (node.ids + idsNamed before) := add_le_add_right stored _
      _ = idsNamed ((key, node) :: rest) + idsNamed before := by
        rw [idsNamed_cons, add_left_comm, add_assoc]

/-! ## Identities along paths -/

/-- The identities of the operands of a node. -/
def idsBelow (operands : List (Segment × Node)) : Multiset Nat :=
  (operands : Multiset (Segment × Node)).bind (·.2.ids)

theorem mem_idsBelow_iff {operands : List (Segment × Node)} {id : Nat} :
    id ∈ idsBelow operands ↔ ∃ entry ∈ operands, id ∈ entry.2.ids := by
  rw [idsBelow, Multiset.mem_bind]
  rfl

theorem idsBelow_cons (entry : Segment × Node) (rest : List (Segment × Node)) :
    idsBelow (entry :: rest) = entry.2.ids + idsBelow rest := by
  rw [idsBelow, ← Multiset.cons_coe, Multiset.cons_bind]
  rfl

theorem idsBelow_append (operands more : List (Segment × Node)) :
    idsBelow (operands ++ more) = idsBelow operands + idsBelow more := by
  rw [idsBelow, ← Multiset.coe_add, Multiset.add_bind]
  rfl

theorem ids_eq_operands (node : Node) : node.ids = {node.id} + idsBelow node.operands := by
  have positions (nodes : List Node) (index : Nat) : idsAll nodes =
      idsBelow ((nodes.zipIdx index).map fun entry => (.child entry.2, entry.1)) := by
    induction nodes generalizing index with
    | nil => rfl
    | cons node rest ih =>
      rw [idsAll_cons, ih (index + 1), List.zipIdx_cons, List.map_cons, idsBelow_cons]
  have slots (named : List (String × Node)) : idsNamed named =
      idsBelow (named.map fun entry => (.named entry.1, entry.2)) := by
    induction named with
    | nil => rfl
    | cons entry rest ih => rw [idsNamed_cons, ih, List.map_cons, idsBelow_cons]
  rw [ids_eq, positions node.children 0, slots, operands, idsBelow_append]

/-- Every identity is that of a node that some path leads to. -/
theorem exists_at?_of_mem_ids {id : Nat} (distinct : node.Everywhere OwnDistinctKeys)
    (mem : id ∈ node.ids) : ∃ path found, node.at? path = some found ∧ found.id = id := by
  induction node using induction_operands with
  | step node ih =>
    obtain ⟨own, below⟩ := everywhere_iff_operands.1 distinct
    rw [ids_eq_operands, Multiset.mem_add, Multiset.mem_singleton] at mem
    rcases mem with rfl | mem
    · exact ⟨[], node, rfl, rfl⟩
    · obtain ⟨⟨segment, operand⟩, listed, mem⟩ := mem_idsBelow_iff.1 mem
      obtain ⟨path, found, there, same⟩ := ih _ listed (below _ listed) mem
      refine ⟨segment :: path, found, ?_, same⟩
      rw [at?, (mem_operands_iff own).1 listed]
      exact there

/-- The identities of the nodes that are not below a place: each is found at a path that does not
lead there. -/
def Elsewhere (root : Node) (place : Path) (ids : Multiset Nat) : Prop :=
  ∀ id ∈ ids, ∃ path node, root.at? path = some node ∧ ¬ place <+: path ∧ node.id = id

/-- An operand is replaced with its identities, and no other identity is touched. -/
theorem exists_ids_setStep (distinct : node.Everywhere OwnDistinctKeys)
    (found : node.step? segment = some operand) :
    ∃ others, node.ids = others + operand.ids ∧
      (∀ new, (node.setStep new segment).ids = others + new.ids) ∧
      node.Elsewhere [segment] others := by
  obtain ⟨before, after, split, stored⟩ := exists_operands_setStep found
  have sum (new : Node) : idsBelow (before ++ (segment, new) :: after) =
      idsBelow (before ++ after) + new.ids := by
    rw [idsBelow_append, idsBelow_append, idsBelow_cons]
    abel
  refine ⟨{node.id} + idsBelow (before ++ after), ?_, fun new => ?_, fun id mem => ?_⟩
  · rw [ids_eq_operands, split, sum, add_assoc]
  · have same : (node.setStep new segment).id = node.id := by cases segment <;> rfl
    rw [ids_eq_operands, same, stored, sum, add_assoc]
  · rw [Multiset.mem_add, Multiset.mem_singleton] at mem
    rcases mem with rfl | mem
    · exact ⟨[], node, rfl, by simp, rfl⟩
    · obtain ⟨own, below⟩ := everywhere_iff_operands.1 distinct
      obtain ⟨⟨other, sibling⟩, listed, mem⟩ := mem_idsBelow_iff.1 mem
      have nodup := nodup_operands own
      rw [split, List.map_append, List.map_cons, List.nodup_middle, List.nodup_cons,
        ← List.map_append] at nodup
      have apart : segment ≠ other := by
        rintro rfl
        exact nodup.1 (List.mem_map.2 ⟨_, listed, rfl⟩)
      have listed : (other, sibling) ∈ node.operands := by
        rw [split]
        exact List.mem_append.2 ((List.mem_append.1 listed).imp_right (List.mem_cons_of_mem _))
      obtain ⟨path, found, there, same⟩ := exists_at?_of_mem_ids (below _ listed) mem
      refine ⟨other :: path, found, ?_, ?_, same⟩
      · rw [at?, (mem_operands_iff own).1 listed]
        exact there
      · simp [apart]

/-- **A node is replaced with its identities**, and no other identity of the tree is touched. -/
theorem exists_ids_put? (distinct : root.Everywhere OwnDistinctKeys)
    (found : root.at? path = some node) :
    ∃ others, root.ids = others + node.ids ∧
      (∀ new updated, root.put? new path = some updated → updated.ids = others + new.ids) ∧
      root.Elsewhere path others := by
  induction path generalizing root with
  | nil =>
    cases found
    refine ⟨0, (zero_add _).symm, fun new updated put => ?_, nofun⟩
    cases put
    exact (zero_add _).symm
  | cons segment path ih =>
    obtain ⟨operand, step, found⟩ := Option.bind_eq_some_iff.1 found
    obtain ⟨others, sum, stored, apart⟩ := exists_ids_setStep distinct step
    obtain ⟨below, sumBelow, put, apartBelow⟩ := ih (distinct.step? step) found
    refine ⟨others + below, ?_, fun new updated replaced => ?_, fun id mem => ?_⟩
    · rw [sum, sumBelow, add_assoc]
    · obtain ⟨_, again, replaced⟩ := Option.bind_eq_some_iff.1 replaced
      cases step.symm.trans again
      obtain ⟨changed, inner, same⟩ := Option.bind_eq_some_iff.1 replaced
      cases same
      rw [stored, put new changed inner, add_assoc]
    · rcases Multiset.mem_add.1 mem with mem | mem
      · obtain ⟨other, node, there, elsewhere, same⟩ := apart id mem
        refine ⟨other, node, there, fun within => elsewhere ?_, same⟩
        exact (List.prefix_append [segment] path).trans within
      · obtain ⟨other, node, there, elsewhere, same⟩ := apartBelow id mem
        refine ⟨segment :: other, node, ?_, ?_, same⟩
        · rw [at?, step]
          exact there
        · simpa using elsewhere

end Node

/-! ## Taking identities -/

/-- The identities are among those from `next` up to `rest` and the given ones, and none occurs more
often than there. -/
structure Taken (next rest : Nat) (given ids : Multiset Nat) : Prop where
  le : next ≤ rest
  ids_le : ids ≤ Multiset.Ico next rest + given

namespace Taken

variable {next mid rest : Nat} {given given' more total ids ids' : Multiset Nat}

theorem refl (next : Nat) (known : ids ≤ given) : Taken next next given ids :=
  ⟨le_refl next, known.trans (Multiset.le_add_left _ _)⟩

theorem mono (taken : Taken next rest given ids) (enough : given ≤ given') (fewer : ids' ≤ ids) :
    Taken next rest given' ids' := by
  refine ⟨taken.le, fewer.trans (taken.ids_le.trans ?_)⟩
  gcongr

/-- The second step is given what the first one has taken, and what that one has no use for. -/
theorem trans (first : Taken next mid given ids) (second : Taken mid rest (ids + more) ids')
    (enough : given + more ≤ total) : Taken next rest total ids' := by
  refine ⟨first.le.trans second.le, second.ids_le.trans ?_⟩
  calc Multiset.Ico mid rest + (ids + more)
      ≤ Multiset.Ico mid rest + (Multiset.Ico next mid + given + more) := by
        have taken := first.ids_le
        gcongr
    _ = Multiset.Ico next mid + Multiset.Ico mid rest + (given + more) := by abel
    _ = Multiset.Ico next rest + (given + more) := by
        rw [Multiset.Ico_add_Ico_eq_Ico first.le second.le]
    _ ≤ Multiset.Ico next rest + total := by gcongr

/-- The second step has nothing to do with the first one. -/
theorem add (first : Taken next mid given ids) (second : Taken mid rest given' ids') :
    Taken next rest (given + given') (ids + ids') := by
  refine first.trans ⟨second.le, ?_⟩ (le_refl (given + given'))
  have taken := second.ids_le
  calc ids + ids' ≤ ids + (Multiset.Ico mid rest + given') := by gcongr
    _ = Multiset.Ico mid rest + (ids + given') := by abel

theorem new (next : Nat) : Taken next (next + 1) 0 {next} := by
  have one : Multiset.Ico next (next + 1) = {next} :=
    congrArg Finset.val (Nat.Ico_succ_singleton next)
  exact ⟨Nat.le_succ next, by rw [one, add_zero]⟩

end Taken

namespace Fresh

variable {α β : Type} {ids : α → Multiset Nat} {ids' : β → Multiset Nat}
  {given more total : Multiset Nat}

/-- What the action gives has identities that it takes from the supply or is given. -/
def Takes (action : Fresh α) (ids : α → Multiset Nat) (given : Multiset Nat) : Prop :=
  ∀ next, Taken next (action next).2 given (ids (action next).1)

theorem takes_pure {value : α} (known : ids value ≤ given) :
    (pure value : Fresh α).Takes ids given := fun next => .refl next known

theorem Takes.mono {action : Fresh α} (taken : action.Takes ids given) (enough : given ≤ total) :
    action.Takes ids total := fun next => (taken next).mono enough (le_refl _)

theorem Takes.bind {action : Fresh α} {after : α → Fresh β} (first : action.Takes ids given)
    (following : ∀ value, (after value).Takes ids' (ids value + more))
    (enough : given + more ≤ total) : (action >>= after).Takes ids' total := fun next =>
  (first next).trans (following (action next).1 (action next).2) enough

/-- Building a node from each item of a list, which takes with it the node that the item holds. -/
theorem takes_all {γ : Type} {build : γ → Fresh Node} {held : γ → Node}
    (each : ∀ item, (build item).Takes Node.ids (held item).ids) (items : List γ) :
    (all (items.map build)).Takes Node.idsAll (Node.idsAll (items.map held)) := by
  induction items with
  | nil => exact fun next => .refl next (le_of_eq rfl)
  | cons item items ih =>
    refine fun next => (each item next).add ?_
    exact ih (build item next).2

end Fresh

namespace Node

/-! ## New nodes -/

variable {name : NodeName} {constant : Option Constant} {next rest : Nat}

/-- A node takes the next identity, and its operands are taken after it. -/
theorem taken_node {children : List Node} {named : List (String × Node)} {given : Multiset Nat}
    (below : Taken (next + 1) rest given (idsAll children + idsNamed named)) :
    Taken next rest given (Node.mk next name constant children named).ids := by
  have taken := (Taken.new next).add below
  rwa [zero_add] at taken

theorem takes_undefined : undefined.Takes ids 0 := fun next =>
  taken_node (.refl (next + 1) (le_of_eq rfl))

theorem takes_literal (value : Constant) : (literal value).Takes ids 0 := fun next =>
  taken_node (.refl (next + 1) (le_of_eq rfl))

theorem takes_apply (name : String) (children : List Node) :
    (apply name children).Takes ids (idsAll children) := fun next =>
  taken_node (.refl (next + 1) (add_zero _).le)

theorem takes_call (name : String) (named : List (String × Node)) :
    (call name named).Takes ids (idsNamed named) := by
  have stored : idsNamed _ ≤ idsNamed named + 0 := idsNamed_storeAll_le named []
  refine fun next => taken_node (.refl (next + 1) ?_)
  rwa [idsAll_nil, zero_add, ← add_zero (idsNamed named)]

/-! ## Trees of new nodes -/

mutual

theorem takes_recreate : ∀ node : Node, node.recreate.Takes ids 0
  | ⟨_, _, _, children, named⟩, next =>
    taken_node ((takes_recreateAll children (next + 1)).add (takes_recreateNamed named _))

theorem takes_recreateAll : ∀ nodes : List Node, (recreateAll nodes).Takes idsAll 0
  | [], next => .refl next (le_of_eq rfl)
  | node :: rest, next => (takes_recreate node next).add (takes_recreateAll rest _)

theorem takes_recreateNamed : ∀ named : List (String × Node),
    (recreateNamed named).Takes idsNamed 0
  | [], next => .refl next (le_of_eq rfl)
  | (_, node) :: rest, next => (takes_recreate node next).add (takes_recreateNamed rest _)

end

end Node

namespace WireNode

mutual

theorem taken_toNodeAt : ∀ {wire : WireNode} {location : Path} {next rest : Nat} {node : Node},
    wire.toNodeAt location next = .ok (node, rest) → Taken next rest 0 node.ids
  | ⟨_, name, constant, children, named⟩, location, next, rest, node, read => by
    obtain ⟨value, _, literal, read⟩ := StateT.bind_eq_ok.1 read
    obtain ⟨-, rfl⟩ := StateT.lift_eq_ok.1 literal
    obtain ⟨id, mid, issued, read⟩ := StateT.bind_eq_ok.1 read
    cases issued
    obtain ⟨nodes, _, positional, read⟩ := StateT.bind_eq_ok.1 read
    obtain ⟨entries, _, keyed, read⟩ := StateT.bind_eq_ok.1 read
    cases read
    exact Node.taken_node ((taken_toNodeChildren positional).add (taken_toNodeNamed keyed))

theorem taken_toNodeChildren : ∀ {wires : List WireNode} {location : Path} {index next rest : Nat}
    {nodes : List Node}, toNodeChildren location index wires next = .ok (nodes, rest) →
      Taken next rest 0 (Node.idsAll nodes)
  | [], _, _, next, _, _, read => by
    cases read
    exact .refl next (le_of_eq rfl)
  | wire :: wires, location, index, next, rest, nodes, read => by
    obtain ⟨node, mid, head, read⟩ := StateT.bind_eq_ok.1 read
    obtain ⟨nodes, _, tail, read⟩ := StateT.bind_eq_ok.1 read
    cases read
    exact (taken_toNodeAt head).add (taken_toNodeChildren tail)

theorem taken_toNodeNamed : ∀ {wires : List (String × WireNode)} {location : Path}
    {next rest : Nat} {named : List (String × Node)},
    toNodeNamed location wires next = .ok (named, rest) → Taken next rest 0 (Node.idsNamed named)
  | [], _, next, _, _, read => by
    cases read
    exact .refl next (le_of_eq rfl)
  | (key, wire) :: wires, location, next, rest, named, read => by
    obtain ⟨node, mid, head, read⟩ := StateT.bind_eq_ok.1 read
    obtain ⟨named, _, tail, read⟩ := StateT.bind_eq_ok.1 read
    cases read
    exact (taken_toNodeAt head).add (taken_toNodeNamed tail)

end

end WireNode

namespace Node

variable {node : Node} {next rest : Nat}

/-- Every node of the tree is new: the identities are from `next` on and below `rest`, none
twice. -/
def IsNew (node : Node) (next rest : Nat) : Prop :=
  node.ids.Nodup ∧ ∀ id ∈ node.ids, next ≤ id ∧ id < rest

theorem isNew_of_taken (taken : Taken next rest 0 node.ids) : node.IsNew next rest := by
  have bound := taken.ids_le
  rw [add_zero] at bound
  exact ⟨Multiset.nodup_of_le bound Multiset.nodup_Ico, fun id mem =>
    Multiset.mem_Ico.1 (Multiset.mem_of_le bound mem)⟩

theorem isNew_recreate (node : Node) (next : Nat) :
    (node.recreate next).1.IsNew next (node.recreate next).2 :=
  isNew_of_taken (takes_recreate node next)

theorem isNew_of_deserialize {text : String} (read : deserialize text next = .ok (node, rest)) :
    node.IsNew next rest := by
  rw [deserialize] at read
  split at read
  · cases read
  · next wire _ =>
    split at read
    · next result found =>
      cases read
      exact isNew_of_taken (WireNode.taken_toNodeAt found)
    · cases read

end Node

end RuleEditor
