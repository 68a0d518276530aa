import Mathlib.Algebra.Ring.Nat
import Mathlib.Data.List.Nodup
import RuleEditor.Path.Basic
import RuleEditor.Proofs.Keyed

/-!
# Trees in pre-order

Rules, their stored forms and the evaluations of a rule are trees of one kind: a node has operands
by position and operands by name, and a path leads from operand to operand. What is said here holds
of all of them.

**Addresses.** `OperandTree.at?` follows a path. In a tree where no node has two operands of one
name, every node is at one path only.

**Pre-order** (`OperandTree.Before`). A node comes before the nodes below it, and of two nodes that
are below different operands of a third one, that below the earlier operand comes first.

**Listings** (`OperandTree.Lists`). A function that puts a node in front of what it gives for the
operands, one after another, lists every path that leads to a node, once, in pre-order, each with
the node that is there. What it lists for a node below stands in one piece, and is what it lists for
this node alone, with longer paths.

**Searches** (`OperandTree.Searches`). A function that looks at a node first and at its operands
after it finds what there is at the first node, in pre-order, that has anything.
-/

namespace RuleEditor

/-- A type of trees whose nodes have operands by position and by name. -/
class OperandTree (τ : Type) where
  children : τ → List τ
  named : τ → List (String × τ)
  /-- Operands are smaller than the node that has them. -/
  smaller : ∃ measure : τ → Nat, ∀ tree, (∀ child ∈ children tree, measure child < measure tree) ∧
    ∀ entry ∈ named tree, measure entry.2 < measure tree

namespace OperandTree

variable {τ β γ : Type} [OperandTree τ] {tree operand root found : τ} {segment : Segment}
  {base path : Path}

/-! ## Operands -/

/-- The operands of a node with the segments that lead to them. -/
def operands (tree : τ) : List (Segment × τ) :=
  (children tree).zipIdx.map (fun entry => (.child entry.2, entry.1))
    ++ (named tree).map fun entry => (.named entry.1, entry.2)

def step? (tree : τ) : Segment → Option τ
  | .child index => (children tree)[index]?
  | .named key => Entries.get? key (named tree)

/-- The node that a path leads to. -/
def at? (tree : τ) : Path → Option τ
  | [] => some tree
  | segment :: rest => (step? tree segment).bind (at? · rest)

/-- No two operands of the node have one name. -/
def OwnDistinctKeys (tree : τ) : Prop := ((named tree).map Prod.fst).Nodup

/-- The predicate holds at every node that a path leads to. -/
def Everywhere (P : τ → Prop) (tree : τ) : Prop :=
  ∀ path found, at? tree path = some found → P found

theorem mem_operands_child {index : Nat} :
    (.child index, operand) ∈ operands tree ↔ (children tree)[index]? = some operand := by
  simp [operands, List.mem_zipIdx_iff_getElem?]

theorem mem_operands_named {key : String} :
    (.named key, operand) ∈ operands tree ↔ (key, operand) ∈ named tree := by
  simp [operands]

theorem mem_operands_iff (distinct : OwnDistinctKeys tree) :
    (segment, operand) ∈ operands tree ↔ step? tree segment = some operand := by
  cases segment with
  | child index => exact mem_operands_child
  | named key => exact mem_operands_named.trans (Entries.get?_eq_some_iff distinct).symm

theorem mem_operands_of_step? (step : step? tree segment = some operand) :
    (segment, operand) ∈ operands tree := by
  cases segment with
  | child index => exact mem_operands_child.2 step
  | named key => exact mem_operands_named.2 (Entries.mem_of_get? step)

/-- Positions are told apart by their numbers, names by their keys. -/
theorem nodup_operands (distinct : OwnDistinctKeys tree) :
    ((operands tree).map Prod.fst).Nodup := by
  have positions : ((children tree).zipIdx.map fun entry => Segment.child entry.2) =
      (List.range' 0 (children tree).length).map Segment.child := by
    rw [← List.zipIdx_map_snd, List.map_map]
    rfl
  have slots : ((named tree).map fun entry => Segment.named entry.1) =
      ((named tree).map Prod.fst).map Segment.named := (List.map_map).symm
  rw [operands, List.map_append, List.map_map, List.map_map]
  show (((children tree).zipIdx.map fun entry => Segment.child entry.2) ++
    (named tree).map fun entry => Segment.named entry.1).Nodup
  rw [positions, slots]
  refine List.nodup_append.2 ⟨?_, ?_, ?_⟩
  · exact List.Nodup.map (fun _ _ => Segment.child.inj) List.nodup_range'
  · exact List.Nodup.map (fun _ _ => Segment.named.inj) distinct
  · intro one position other slot
    obtain ⟨index, -, rfl⟩ := List.mem_map.1 position
    obtain ⟨key, -, rfl⟩ := List.mem_map.1 slot
    exact nofun

/-- The operands that are listed before one of them. -/
theorem mem_before_iff (distinct : OwnDistinctKeys tree) {before after : List (Segment × τ)}
    {entry : Segment × τ} (split : operands tree = before ++ (segment, operand) :: after) :
    entry ∈ before ↔ [entry.1, segment].Sublist ((operands tree).map Prod.fst) ∧
      step? tree entry.1 = some entry.2 := by
  have keys := nodup_operands distinct
  have order : [entry.1, segment].Sublist ((operands tree).map Prod.fst) ↔
      entry.1 ∈ before.map Prod.fst := by
    rw [split, List.map_append, List.map_cons] at keys ⊢
    exact sublist_pair_iff keys
  rw [order]
  constructor
  · intro mem
    have listed : entry ∈ operands tree := split ▸ List.mem_append_left _ mem
    exact ⟨List.mem_map_of_mem mem, (mem_operands_iff distinct).1 listed⟩
  · rintro ⟨mem, step⟩
    obtain ⟨entry', mem', same⟩ := List.mem_map.1 mem
    have listed : entry' ∈ operands tree := split ▸ List.mem_append_left _ mem'
    have step' := (mem_operands_iff distinct).1 listed
    rw [same, step] at step'
    have whole : entry' = entry := Prod.ext same (Option.some.inj step').symm
    exact whole ▸ mem'

theorem forall_mem_operands_iff {P : τ → Prop} :
    (∀ entry ∈ operands tree, P entry.2) ↔
      (∀ child ∈ children tree, P child) ∧ ∀ entry ∈ named tree, P entry.2 := by
  rw [operands, List.forall_mem_append, List.forall_mem_map, List.forall_mem_map]
  refine and_congr_left fun _ => ?_
  constructor
  · intro positions child mem
    obtain ⟨index, there⟩ := List.getElem?_of_mem mem
    exact positions (child, index) (List.mem_zipIdx_iff_getElem?.2 there)
  · intro children entry mem
    exact children entry.1 (List.mem_of_getElem? (List.mem_zipIdx_iff_getElem?.1 mem))

/-- What holds of a tree whenever it holds of its operands holds of every tree. -/
theorem induction_operands {motive : τ → Prop}
    (step : ∀ tree, (∀ entry ∈ operands tree, motive entry.2) → motive tree) (tree : τ) :
    motive tree := by
  obtain ⟨measure, less⟩ := smaller (τ := τ)
  refine (InvImage.wf measure Nat.lt_wfRel.wf).induction tree fun tree ih => step tree ?_
  intro entry mem
  have smaller : ∀ entry ∈ operands tree, measure entry.2 < measure tree :=
    forall_mem_operands_iff.2 (less tree)
  exact ih entry.2 (smaller entry mem)

theorem everywhere_of_operands {P : τ → Prop} (own : P tree)
    (children : ∀ child ∈ children tree, Everywhere P child)
    (named : ∀ entry ∈ named tree, Everywhere P entry.2) : Everywhere P tree := by
  intro path found there
  cases path with
  | nil =>
    cases there
    exact own
  | cons segment path =>
    obtain ⟨operand, step, below⟩ := Option.bind_eq_some_iff.1 there
    cases segment with
    | child index => exact children operand (List.mem_of_getElem? step) path found below
    | named key => exact named (key, operand) (Entries.mem_of_get? step) path found below

theorem Everywhere.own {P : τ → Prop} (everywhere : Everywhere P tree) : P tree :=
  everywhere [] tree rfl

theorem Everywhere.step? {P : τ → Prop} (everywhere : Everywhere P tree)
    (step : step? tree segment = some operand) : Everywhere P operand := by
  intro path found there
  exact everywhere (segment :: path) found (Option.bind_eq_some_iff.2 ⟨operand, step, there⟩)

theorem Everywhere.mem_operands {P : τ → Prop} (everywhere : Everywhere P tree)
    (distinct : OwnDistinctKeys tree) {entry : Segment × τ} (mem : entry ∈ operands tree) :
    Everywhere P entry.2 :=
  everywhere.step? ((mem_operands_iff distinct).1 mem)

/-! ## Pre-order -/

/-- The node at the first path comes before the one at the second path: it is above it, or the paths
part at a node that has the operand on the way to the first one earlier. -/
inductive Before (root : τ) : Path → Path → Prop
  | above (path : Path) (segment : Segment) (below : Path) :
      Before root path (path ++ segment :: below)
  | apart (path : Path) {node : τ} {earlier later : Segment} (here : at? root path = some node)
      (order : [earlier, later].Sublist ((operands node).map Prod.fst)) (below below' : Path) :
      Before root (path ++ earlier :: below) (path ++ later :: below')

theorem Before.cons {first second : Path} (before : Before operand first second)
    (step : step? tree segment = some operand) :
    Before tree (segment :: first) (segment :: second) := by
  cases before with
  | above path next below => exact .above (segment :: first) next below
  | @apart path node earlier later here order below below' =>
    have there : at? tree (segment :: path) = some node :=
      Option.bind_eq_some_iff.2 ⟨operand, step, here⟩
    exact .apart (segment :: path) there order below below'

/-- What is in order below a node is in order in the whole tree. -/
theorem Before.below {first second : Path} (before : Before operand first second)
    (there : at? root path = some operand) : Before root (path ++ first) (path ++ second) := by
  induction path generalizing root with
  | nil =>
    cases there
    exact before
  | cons segment path ih =>
    obtain ⟨child, step, there⟩ := Option.bind_eq_some_iff.1 there
    exact (ih there).cons step

theorem not_before_root {path : Path} : ¬ Before root path [] := by
  intro before
  generalize whole : ([] : Path) = place at before
  cases before <;> simp at whole

/-- What comes before a path that leads through an operand: the node itself, what does so in the
operand, and all that is below earlier operands. -/
theorem before_cons_iff (step : step? tree segment = some operand) {other path : Path} :
    Before tree other (segment :: path) ↔ other = [] ∨
      (∃ below, other = segment :: below ∧ Before operand below path) ∨
      ∃ earlier below, other = earlier :: below ∧
        [earlier, segment].Sublist ((operands tree).map Prod.fst) := by
  constructor
  · intro before
    generalize whole : segment :: path = place at before
    cases before with
    | above _ next below =>
      cases other with
      | nil => exact Or.inl rfl
      | cons first top =>
        cases whole
        exact Or.inr (Or.inl ⟨top, rfl, .above top next below⟩)
    | @apart top node earlier later here order below below' =>
      cases top with
      | nil =>
        cases whole
        cases here
        exact Or.inr (Or.inr ⟨earlier, below, rfl, order⟩)
      | cons first top =>
        cases whole
        have here : at? operand top = some node := by rwa [at?, step] at here
        exact Or.inr (Or.inl ⟨top ++ earlier :: below, rfl, .apart top here order below below'⟩)
  · rintro (rfl | ⟨below, rfl, before⟩ | ⟨earlier, below, rfl, order⟩)
    · exact .above [] segment path
    · exact before.cons step
    · exact .apart [] rfl order below path

theorem Before.ne {first second : Path} (before : Before root first second)
    (distinct : Everywhere OwnDistinctKeys root) : first ≠ second := by
  cases before with
  | above path segment below => simp
  | @apart path node earlier later here order below below' =>
    have nodup := (nodup_operands (distinct path node here)).sublist order
    simp at nodup
    simp [nodup]

/-! ## Listings -/

/-- The function lists a node, with its path and with what is to be said of it, in front of what it
lists for the operands. -/
def Lists (walk : Path → τ → List (Path × β)) (label : τ → β) : Prop :=
  ∀ base tree, walk base tree = (base, label tree) ::
    (operands tree).flatMap fun entry => walk (base ++ [entry.1]) entry.2

namespace Lists

variable {walk : Path → τ → List (Path × β)} {label : τ → β} {value : β}

/-- A listing that goes through positional and named operands with functions of their own. -/
theorem of_steps {walkChildren : Path → Nat → List τ → List (Path × β)}
    {walkNamed : Path → List (String × τ) → List (Path × β)}
    (node : ∀ base tree, walk base tree = (base, label tree) ::
      (walkChildren base 0 (children tree) ++ walkNamed base (named tree)))
    (noChild : ∀ base index, walkChildren base index [] = [])
    (child : ∀ base index tree rest, walkChildren base index (tree :: rest) =
      walk (base.child index) tree ++ walkChildren base (index + 1) rest)
    (noSlot : ∀ base, walkNamed base [] = [])
    (slot : ∀ base key tree rest, walkNamed base ((key, tree) :: rest) =
      walk (base.named key) tree ++ walkNamed base rest) : Lists walk label := by
  have positional (base : Path) (index : Nat) (nodes : List τ) : walkChildren base index nodes =
      (nodes.zipIdx index).flatMap fun entry => walk (base ++ [.child entry.2]) entry.1 := by
    induction nodes generalizing index with
    | nil => exact noChild base index
    | cons tree rest ih =>
      rw [child, ih, List.zipIdx_cons, List.flatMap_cons]
      rfl
  have keyed (base : Path) (entries : List (String × τ)) : walkNamed base entries =
      entries.flatMap fun entry => walk (base ++ [.named entry.1]) entry.2 := by
    induction entries with
    | nil => exact noSlot base
    | cons entry rest ih =>
      rw [slot, ih, List.flatMap_cons]
      rfl
  intro base tree
  rw [node, positional, keyed, operands, List.flatMap_append, List.flatMap_map, List.flatMap_map]

/-- **A listing has a path exactly if it leads to a node**, and has what is to be said of the node
with it. -/
theorem mem_iff (lists : Lists walk label) (distinct : Everywhere OwnDistinctKeys tree) :
    (path, value) ∈ walk base tree ↔
      ∃ below found, path = base ++ below ∧ at? tree below = some found ∧ label found = value := by
  induction tree using induction_operands generalizing base path with
  | step tree ih =>
    rw [lists, List.mem_cons, List.mem_flatMap]
    constructor
    · rintro (here | ⟨⟨segment, operand⟩, mem, listed⟩)
      · cases here
        exact ⟨[], tree, by simp, rfl, rfl⟩
      · have below := distinct.mem_operands distinct.own mem
        obtain ⟨below, found, rfl, there, same⟩ := (ih _ mem below).1 listed
        have step := (mem_operands_iff distinct.own).1 mem
        exact ⟨segment :: below, found, by simp, Option.bind_eq_some_iff.2 ⟨_, step, there⟩, same⟩
    · rintro ⟨below, found, rfl, there, same⟩
      cases below with
      | nil =>
        cases there
        exact Or.inl (by simp [same])
      | cons segment below =>
        obtain ⟨operand, step, there⟩ := Option.bind_eq_some_iff.1 there
        have mem := (mem_operands_iff distinct.own).2 step
        refine Or.inr ⟨(segment, operand), mem, ?_⟩
        exact (ih _ mem (distinct.step? step)).2 ⟨below, found, by simp, there, same⟩

/-- What is listed for an operand is at paths that lead through it. -/
theorem exists_of_mem_operand (lists : Lists walk label)
    (distinct : Everywhere OwnDistinctKeys tree) {entry : Segment × τ}
    (mem : entry ∈ operands tree) {other : Path × β}
    (listed : other ∈ walk (base ++ [entry.1]) entry.2) :
    ∃ path, other.1 = base ++ entry.1 :: path := by
  have below := distinct.mem_operands distinct.own mem
  obtain ⟨path, _, same, -, -⟩ := (lists.mem_iff below).1 listed
  exact ⟨path, by simp [same]⟩

/-- **A listing is in pre-order.** -/
theorem pairwise_before (lists : Lists walk label) (distinct : Everywhere OwnDistinctKeys tree) :
    (walk base tree).Pairwise fun entry other =>
      ∃ first second, entry.1 = base ++ first ∧ other.1 = base ++ second ∧
        Before tree first second := by
  induction tree using induction_operands generalizing base with
  | step tree ih =>
    rw [lists, List.pairwise_cons]
    refine ⟨fun other mem => ?_, List.pairwise_flatMap.2 ⟨fun entry mem => ?_, ?_⟩⟩
    · obtain ⟨entry, mem, listed⟩ := List.mem_flatMap.1 mem
      obtain ⟨path, same⟩ := lists.exists_of_mem_operand distinct mem listed
      exact ⟨[], entry.1 :: path, by simp, same, .above [] entry.1 path⟩
    · have step := (mem_operands_iff distinct.own).1 mem
      refine (ih entry mem (distinct.mem_operands distinct.own mem)).imp ?_
      rintro _ _ ⟨first, second, one, other, before⟩
      exact ⟨entry.1 :: first, entry.1 :: second, by simp [one], by simp [other], before.cons step⟩
    · refine List.pairwise_iff_forall_sublist.2 fun {entry entry'} pair => ?_
      intro one listed other listed'
      obtain ⟨path, same⟩ := lists.exists_of_mem_operand distinct (pair.subset (by simp)) listed
      obtain ⟨path', same'⟩ := lists.exists_of_mem_operand distinct (pair.subset (by simp)) listed'
      have order : [entry.1, entry'.1].Sublist ((operands tree).map Prod.fst) :=
        pair.map Prod.fst
      exact ⟨_, _, same, same', .apart [] rfl order path path'⟩

/-- What is listed for the node that a path leads to is in the pre-order of the whole tree. -/
theorem pairwise_paths (lists : Lists walk label) (distinct : Everywhere OwnDistinctKeys found)
    (there : at? root path = some found) :
    ((walk path found).map Prod.fst).Pairwise (Before root) := by
  refine List.pairwise_map.2 ((lists.pairwise_before distinct).imp ?_)
  rintro ⟨_, _⟩ ⟨_, _⟩ ⟨first, second, rfl, rfl, before⟩
  exact before.below there

/-- **A listing repeats no path.** -/
theorem nodup (lists : Lists walk label) (distinct : Everywhere OwnDistinctKeys tree) :
    ((walk base tree).map Prod.fst).Nodup := by
  refine List.pairwise_map.2 ((lists.pairwise_before distinct).imp ?_)
  rintro _ _ ⟨first, second, one, other, before⟩
  rw [one, other]
  exact fun same => before.ne distinct (List.append_cancel_left same)

/-- A tree that stands further down lists the same, with longer paths. -/
theorem append_eq (lists : Lists walk label) (base path : Path) (tree : τ) :
    walk (base ++ path) tree = (walk path tree).map fun entry => (base ++ entry.1, entry.2) := by
  induction tree using induction_operands generalizing path with
  | step tree ih =>
    rw [lists, lists path, List.map_cons, List.map_flatMap]
    congr 1
    refine List.flatMap_congr fun entry mem => ?_
    rw [List.append_assoc]
    exact ih entry mem (path ++ [entry.1])

/-- What is listed for the node that a path leads to stands in one piece. -/
theorem exists_split (lists : Lists walk label) (there : at? root path = some found)
    (base : Path) :
    ∃ before after, walk base root = before ++ walk (base ++ path) found ++ after := by
  induction path generalizing root base with
  | nil =>
    cases there
    exact ⟨[], [], by simp⟩
  | cons segment path ih =>
    obtain ⟨operand, step, there⟩ := Option.bind_eq_some_iff.1 there
    obtain ⟨before, after, split⟩ := ih there (base ++ [segment])
    obtain ⟨first, last, operands⟩ := List.append_of_mem (mem_operands_of_step? step)
    let through (operands : List (Segment × τ)) : List (Path × β) :=
      operands.flatMap fun entry => walk (base ++ [entry.1]) entry.2
    refine ⟨(base, label root) :: through first ++ before, after ++ through last, ?_⟩
    rw [lists, operands, List.flatMap_append, List.flatMap_cons, split]
    simp [through]

/-- What is added up over the nodes of a tree is added up over a listing. -/
theorem sum_eq (lists : Lists walk label) {weight : β → Nat} {total : τ → Nat}
    (added : ∀ tree, total tree =
      weight (label tree) + ((operands tree).map fun entry => total entry.2).sum) :
    ((walk base tree).map fun entry => weight entry.2).sum = total tree := by
  induction tree using induction_operands generalizing base with
  | step tree ih =>
    have below : ((operands tree).flatMap fun entry => walk (base ++ [entry.1]) entry.2).map
        (fun entry => weight entry.2) =
        (operands tree).flatMap fun entry =>
          (walk (base ++ [entry.1]) entry.2).map fun entry => weight entry.2 := List.map_flatMap
    rw [lists, List.map_cons, List.sum_cons, below, added, List.flatMap, List.sum_flatten,
      List.map_map]
    congr 2
    exact List.map_congr_left fun entry mem => ih entry mem

end Lists

/-! ## Searches -/

/-- The function looks at a node first and then at its operands, one after another, and gives what
it finds first. -/
def Searches (search own : Path → τ → Option γ) : Prop :=
  ∀ base tree, search base tree = (own base tree).or
    ((operands tree).findSome? fun entry => search (base ++ [entry.1]) entry.2)

namespace Searches

variable {search own : Path → τ → Option γ} {value : γ}

/-- A search that goes through positional and named operands with functions of their own. -/
theorem of_steps (searchChildren : Path → Nat → List τ → Option γ)
    (searchNamed : Path → List (String × τ) → Option γ)
    (node : ∀ base tree, search base tree = (own base tree).or
      ((searchChildren base 0 (children tree)).or (searchNamed base (named tree))))
    (noChild : ∀ base index, searchChildren base index [] = none)
    (child : ∀ base index tree rest, searchChildren base index (tree :: rest) =
      (search (base.child index) tree).or (searchChildren base (index + 1) rest))
    (noSlot : ∀ base, searchNamed base [] = none)
    (slot : ∀ base key tree rest, searchNamed base ((key, tree) :: rest) =
      (search (base.named key) tree).or (searchNamed base rest)) : Searches search own := by
  have positional (base : Path) (index : Nat) (nodes : List τ) : searchChildren base index nodes =
      (nodes.zipIdx index).findSome? fun entry => search (base ++ [.child entry.2]) entry.1 := by
    induction nodes generalizing index with
    | nil => exact noChild base index
    | cons tree rest ih =>
      rw [child, ih, List.zipIdx_cons, List.findSome?_cons, Path.child]
      cases search (base ++ [.child index]) tree <;> rfl
  have keyed (base : Path) (entries : List (String × τ)) : searchNamed base entries =
      entries.findSome? fun entry => search (base ++ [.named entry.1]) entry.2 := by
    induction entries with
    | nil => exact noSlot base
    | cons entry rest ih =>
      rw [slot, ih, List.findSome?_cons, Path.named]
      cases search (base ++ [.named entry.1]) entry.2 <;> rfl
  intro base tree
  rw [node, positional, keyed, operands, List.findSome?_append, List.findSome?_map,
    List.findSome?_map]
  rfl

/-- Nothing is found if there is nothing at any node. -/
theorem eq_none_iff (searches : Searches search own) (distinct : Everywhere OwnDistinctKeys tree) :
    search base tree = none ↔
      ∀ path node, at? tree path = some node → own (base ++ path) node = none := by
  induction tree using induction_operands generalizing base with
  | step tree ih =>
    rw [searches, Option.or_eq_none_iff, List.findSome?_eq_none_iff]
    constructor
    · rintro ⟨here, below⟩ path node there
      cases path with
      | nil =>
        cases there
        simpa using here
      | cons segment path =>
        obtain ⟨operand, step, there⟩ := Option.bind_eq_some_iff.1 there
        have mem := (mem_operands_iff distinct.own).2 step
        simpa using (ih _ mem (distinct.step? step)).1 (below _ mem) path node there
    · intro silent
      refine ⟨by simpa using silent [] tree rfl, fun entry mem => ?_⟩
      refine (ih entry mem (distinct.mem_operands distinct.own mem)).2 fun path node there => ?_
      have step := (mem_operands_iff distinct.own).1 mem
      simpa using silent (entry.1 :: path) node (Option.bind_eq_some_iff.2 ⟨_, step, there⟩)

/-- The node at the path is the first one in pre-order that has anything, and has this. -/
structure First (own : Path → τ → Option γ) (root : τ) (path : Path) (value : γ) : Prop where
  here : ∃ node, at? root path = some node ∧ own path node = some value
  silent : ∀ other node, Before root other path → at? root other = some node → own other node = none

theorem First.cons {path : Path}
    (first : First (fun path => own (segment :: path)) operand path value)
    (step : OperandTree.step? tree segment = some operand) (nothing : own [] tree = none)
    (earlier : ∀ other operand, [other, segment].Sublist ((operands tree).map Prod.fst) →
      OperandTree.step? tree other = some operand →
        ∀ below node, at? operand below = some node → own (other :: below) node = none) :
    First own tree (segment :: path) value := by
  obtain ⟨node, there, given⟩ := first.here
  refine ⟨⟨node, Option.bind_eq_some_iff.2 ⟨operand, step, there⟩, given⟩, ?_⟩
  intro place other ahead there'
  rcases (before_cons_iff step).1 ahead with rfl | ⟨below, rfl, before⟩ | ⟨head, below, rfl, order⟩
  · cases there'
    exact nothing
  · rw [at?, step] at there'
    exact first.silent below other before there'
  · obtain ⟨child, step', there'⟩ := Option.bind_eq_some_iff.1 there'
    exact earlier head child order step' below other there'

theorem first_cons_iff {path : Path} (step : OperandTree.step? tree segment = some operand) :
    First own tree (segment :: path) value ↔
      First (fun path => own (segment :: path)) operand path value ∧ own [] tree = none ∧
        ∀ other operand, [other, segment].Sublist ((operands tree).map Prod.fst) →
          OperandTree.step? tree other = some operand →
            ∀ below node, at? operand below = some node → own (other :: below) node = none := by
  refine ⟨fun ⟨⟨node, there, given⟩, silent⟩ => ⟨⟨⟨node, ?_, given⟩, ?_⟩, ?_, ?_⟩,
    fun ⟨first, nothing, earlier⟩ => first.cons step nothing earlier⟩
  · rwa [at?, step] at there
  · intro other node ahead there
    exact silent _ node (ahead.cons step) (Option.bind_eq_some_iff.2 ⟨operand, step, there⟩)
  · exact silent [] tree (.above [] segment path) rfl
  · intro other child order step' below node there
    have ahead : Before tree (other :: below) (segment :: path) :=
      (before_cons_iff step).2 (Or.inr (Or.inr ⟨other, below, rfl, order⟩))
    exact silent _ node ahead (Option.bind_eq_some_iff.2 ⟨child, step', there⟩)

/-- **A search finds what there is at the first node, in pre-order, that has anything.** -/
theorem eq_some_iff (searches : Searches search own) (distinct : Everywhere OwnDistinctKeys tree) :
    search base tree = some value ↔
      ∃ path, First (fun path => own (base ++ path)) tree path value := by
  induction tree using induction_operands generalizing base with
  | step tree ih =>
    rw [searches, Option.or_eq_some_iff]
    constructor
    · rintro (here | ⟨nothing, later⟩)
      · exact ⟨[], ⟨tree, rfl, by simpa using here⟩, fun _ _ ahead => absurd ahead not_before_root⟩
      · obtain ⟨before, entry, after, split, found, passed⟩ := List.findSome?_eq_some_iff.1 later
        have mem : entry ∈ operands tree := by simp [split]
        have step := (mem_operands_iff distinct.own).1 mem
        obtain ⟨path, first⟩ := (ih entry mem (distinct.step? step)).1 found
        refine ⟨entry.1 :: path,
          (first_cons_iff step).2 ⟨by simpa using first, by simpa using nothing, ?_⟩⟩
        intro other child order step'
        have mem' : (other, child) ∈ before :=
          (mem_before_iff distinct.own split).2 ⟨order, step'⟩
        simpa using (searches.eq_none_iff (distinct.step? step')).1 (passed _ mem')
    · rintro ⟨path, first⟩
      cases path with
      | nil =>
        obtain ⟨node, there, given⟩ := first.here
        cases there
        exact Or.inl (by simpa using given)
      | cons segment path =>
        obtain ⟨node, there, -⟩ := first.here
        obtain ⟨operand, step, -⟩ := Option.bind_eq_some_iff.1 there
        obtain ⟨first, nothing, earlier⟩ := (first_cons_iff step).1 first
        have mem := (mem_operands_iff distinct.own).2 step
        obtain ⟨before, after, split⟩ := List.append_of_mem mem
        have found : search (base ++ [segment]) operand = some value :=
          (ih _ mem (distinct.step? step)).2 ⟨path, by simpa using first⟩
        refine Or.inr ⟨by simpa using nothing, List.findSome?_eq_some_iff.2
          ⟨before, _, after, split, found, fun entry mem' => ?_⟩⟩
        obtain ⟨order, step'⟩ := (mem_before_iff distinct.own split).1 mem'
        have nothing := earlier entry.1 entry.2 order step'
        exact (searches.eq_none_iff (distinct.step? step')).2 (by simpa using nothing)

end Searches

end OperandTree

end RuleEditor
