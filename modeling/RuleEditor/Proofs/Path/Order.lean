import RuleEditor.Proofs.Path.Tree
import RuleEditor.Proofs.Path.Walk

/-!
# Tree order

**Paths.** `Node.places` lists the paths of a tree in the order of the walk. What it lists for the
node that a path leads to stands in it in one piece (`Node.exists_places_split`).

**Before an operand** (`Node.sublist_places_iff`). The places before an operand are those before the
node that it belongs to, this node, and the places at or below an operand that this node lists
before it (`Node.Passed`).
-/

namespace RuleEditor.Node

variable {root node operand : Node} {base path place : Path} {segment : Segment}

/-! ## Places -/

/-- The paths of the nodes of a tree that stands at a path, each before those of its operands. -/
def placesFrom (base : Path) (node : Node) : List Path := (walkFrom base node).map Prod.fst

/-- The paths of the nodes of a tree, in tree order. -/
def places (root : Node) : List Path := root.walk.map Prod.fst

/-- The places of operands of the node at a path. -/
def placesThrough (base : Path) (operands : List (Segment × Node)) : List Path :=
  operands.flatMap fun entry => entry.2.placesFrom (base ++ [entry.1])

theorem placesFrom_eq (base : Path) (node : Node) :
    node.placesFrom base = base :: placesThrough base node.operands := by
  rw [placesFrom, walkFrom_eq, List.map_cons, List.map_flatMap]
  rfl

theorem placesThrough_split (base : Path) (first last : List (Segment × Node)) (segment : Segment)
    (operand : Node) :
    placesThrough base (first ++ (segment, operand) :: last) =
      placesThrough base first ++ (operand.placesFrom (base ++ [segment]) ++
        placesThrough base last) := by
  rw [placesThrough, List.flatMap_append, List.flatMap_cons]
  rfl

theorem mem_placesFrom_iff (distinct : node.Everywhere OwnDistinctKeys) :
    place ∈ node.placesFrom base ↔
      ∃ below found, place = base ++ below ∧ node.at? below = some found := by
  rw [placesFrom, List.mem_map]
  constructor
  · rintro ⟨⟨_, found⟩, listed, rfl⟩
    obtain ⟨below, same, there⟩ := (mem_walkFrom_iff distinct).1 listed
    exact ⟨below, found, same, there⟩
  · rintro ⟨below, found, same, there⟩
    exact ⟨(place, found), (mem_walkFrom_iff distinct).2 ⟨below, same, there⟩, rfl⟩

theorem mem_places_iff (distinct : root.Everywhere OwnDistinctKeys) :
    place ∈ root.places ↔ ∃ found, root.at? place = some found := by
  refine (mem_placesFrom_iff distinct).trans ?_
  simp [Path.root]

theorem nodup_places (distinct : root.Everywhere OwnDistinctKeys) : root.places.Nodup :=
  nodup_walk distinct

/-- The places of a node stand together among those of the tree. -/
theorem exists_places_split (here : root.at? path = some node) (base : Path) :
    ∃ before after, root.placesFrom base = before ++ node.placesFrom (base ++ path) ++ after := by
  obtain ⟨before, after, split⟩ := lists_walkFrom.exists_split (operandTree_at?.trans here) base
  refine ⟨before.map Prod.fst, after.map Prod.fst, ?_⟩
  rw [placesFrom, split, List.map_append, List.map_append]
  rfl

/-! ## Before an operand -/

/-- The place is that of the node at `path`, or it is at or below an operand that the node lists
before the one under the segment. -/
inductive Passed (node : Node) (path : Path) (segment : Segment) : Path → Prop
  | self : node.Passed path segment path
  | operand {earlier : Segment} {place : Path}
      (before : [earlier, segment].Sublist (node.operands.map Prod.fst))
      (within : path ++ [earlier] <+: place) : node.Passed path segment place

theorem exists_places_step (here : root.at? path = some node)
    (step : node.step? segment = some operand) :
    ∃ before first last after, node.operands = first ++ (segment, operand) :: last ∧
      root.places =
        (before ++ path :: placesThrough path first) ++ (path ++ [segment]) :: after := by
  obtain ⟨first, last, operands, -⟩ := exists_operands_setStep step
  obtain ⟨before, after, split⟩ := exists_places_split here []
  refine ⟨before, first, last, placesThrough (path ++ [segment]) operand.operands ++
    placesThrough path last ++ after, operands, ?_⟩
  have whole : root.places = before ++ node.placesFrom path ++ after := split
  rw [whole, placesFrom_eq path, operands, placesThrough_split, placesFrom_eq (path ++ [segment])]
  simp

/-- From the node on, the places before an operand are those that are passed on the way to it. -/
theorem mem_placesThrough_iff {first last : List (Segment × Node)}
    (distinct : root.Everywhere OwnDistinctKeys) (here : root.at? path = some node)
    (split : node.operands = first ++ (segment, operand) :: last) :
    place = path ∨ place ∈ placesThrough path first ↔
      place ∈ root.places ∧ node.Passed path segment place := by
  obtain ⟨own, operands⟩ := everywhere_iff_operands.1 (distinct.at? here)
  have nodup := nodup_operands own
  have segments : node.operands.map Prod.fst =
      first.map Prod.fst ++ segment :: last.map Prod.fst := by
    rw [split, List.map_append, List.map_cons]
  rw [segments] at nodup
  have listed {entry : Segment × Node} (mem : entry ∈ first) : entry ∈ node.operands :=
    split ▸ List.mem_append_left _ mem
  rw [mem_places_iff distinct]
  constructor
  · rintro (rfl | through)
    · exact ⟨⟨node, here⟩, .self⟩
    · obtain ⟨entry, mem, within⟩ := List.mem_flatMap.1 through
      obtain ⟨below, found, rfl, there⟩ :=
        (mem_placesFrom_iff (operands entry (listed mem))).1 within
      have step := (mem_operands_iff own).1 (listed mem)
      refine ⟨⟨found, ?_⟩, .operand ?_ (List.prefix_append _ below)⟩
      · rw [at?_append, at?_concat, here]
        exact Option.bind_eq_some_iff.2 ⟨entry.2, step, there⟩
      · rw [segments, sublist_pair_iff nodup]
        exact List.mem_map_of_mem mem
  · rintro ⟨⟨found, there⟩, passed⟩
    cases passed with
    | self => exact Or.inl rfl
    | @operand earlier _ before within =>
      obtain ⟨below, rfl⟩ := within
      rw [segments, sublist_pair_iff nodup] at before
      obtain ⟨entry, mem, rfl⟩ := List.mem_map.1 before
      rw [at?_append, at?_concat, here, Option.bind_some,
        (mem_operands_iff own).1 (listed mem)] at there
      refine Or.inr (List.mem_flatMap.2 ⟨entry, mem, ?_⟩)
      exact (mem_placesFrom_iff (operands entry (listed mem))).2 ⟨below, found, rfl, there⟩

/-- **What the walk lists before an operand.** -/
theorem sublist_places_iff (distinct : root.Everywhere OwnDistinctKeys)
    (here : root.at? path = some node) (step : node.step? segment = some operand) :
    [place, path ++ [segment]].Sublist root.places ↔
      [place, path].Sublist root.places ∨ place ∈ root.places ∧ node.Passed path segment place := by
  obtain ⟨before, first, last, after, operands, split⟩ := exists_places_step here step
  have nodup := nodup_places distinct
  rw [← mem_placesThrough_iff distinct here operands, split]
  rw [split] at nodup
  have above := nodup
  rw [List.append_assoc, List.cons_append] at above
  rw [sublist_pair_iff nodup, List.append_assoc, List.cons_append, sublist_pair_iff above,
    List.mem_append, List.mem_cons]

/-- The walk lists a node before its operands. -/
theorem sublist_places_step (distinct : root.Everywhere OwnDistinctKeys)
    (here : root.at? path = some node) (step : node.step? segment = some operand) :
    [path, path ++ [segment]].Sublist root.places :=
  (sublist_places_iff distinct here step).2
    (Or.inr ⟨(mem_places_iff distinct).2 ⟨node, here⟩, .self⟩)

/-- Nothing comes before the root. -/
theorem not_sublist_places_root (distinct : root.Everywhere OwnDistinctKeys) :
    ¬ [place, Path.root].Sublist root.places := by
  have nodup := nodup_places distinct
  have first : root.places = [] ++ Path.root :: placesThrough Path.root root.operands :=
    placesFrom_eq Path.root root
  rw [first] at nodup ⊢
  rw [sublist_pair_iff nodup]
  exact nofun

end RuleEditor.Node
