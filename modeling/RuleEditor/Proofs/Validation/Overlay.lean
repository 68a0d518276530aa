import RuleEditor.Proofs.Path.Tree
import RuleEditor.Proofs.Path.Walk
import RuleEditor.Proofs.View

/-!
# Annotations laid over a tree

A view has the shape of its tree, with the annotations of each path at the node that the path leads
to (`ViewNode.mirrors`). What the view of a node says about those below it, their number, whether
there are errors among them and which, is said by the paths that lead through the node.

**Paths through a node.** The walk of a node that stands at a path lists the paths of the whole tree
that begin with this path, in the pre-order of the whole tree (`Node.exists_placesThrough`), the
path itself first and those that go on from it behind it (`Node.mem_tail_walkFrom_iff`). So
annotations at paths that lead nowhere are never looked at.
-/

namespace RuleEditor

namespace Node

variable {root node found : Node} {path place : Path}

/-! ## Paths through a node -/

theorem at?_through_iff (here : root.at? path = some node) :
    root.at? place = some found ∧ path <+: place ↔
      ∃ below, place = path ++ below ∧ node.at? below = some found := by
  constructor
  · rintro ⟨there, below, rfl⟩
    rw [at?_append, here] at there
    exact ⟨below, rfl, there⟩
  · rintro ⟨below, rfl, there⟩
    rw [at?_append, here]
    exact ⟨there, List.prefix_append path below⟩

/-- The walk of a node lists the paths through it in the order of the whole tree. -/
theorem exists_placesThrough (distinct : root.Everywhere OwnDistinctKeys)
    (here : root.at? path = some node) :
    (∀ place, place ∈ (node.walkFrom path).map Prod.fst ↔
      (∃ found, root.at? place = some found) ∧ path <+: place) ∧
    ((node.walkFrom path).map Prod.fst).Pairwise (OperandTree.Before root) := by
  have below := distinct.at? here
  have order := lists_walkFrom.pairwise_paths (operandTree_everywhere below)
    (operandTree_at?.trans here)
  refine ⟨fun place => ?_, order⟩
  rw [List.mem_map, ← exists_and_right]
  constructor
  · rintro ⟨⟨_, found⟩, listed, rfl⟩
    exact ⟨found, (at?_through_iff here).2 ((mem_walkFrom_iff below).1 listed)⟩
  · rintro ⟨found, through⟩
    exact ⟨(place, found), (mem_walkFrom_iff below).2 ((at?_through_iff here).1 through), rfl⟩

/-- What the walk of a node lists behind the node is strictly below it. -/
theorem mem_tail_walkFrom_iff (distinct : node.Everywhere OwnDistinctKeys) :
    (place, found) ∈ (node.walkFrom path).tail ↔
      ∃ segment below, place = path ++ segment :: below ∧
        node.at? (segment :: below) = some found := by
  have keys := operandTree_everywhere distinct
  have split := walkFrom_eq path node
  rw [split, List.tail_cons]
  constructor
  · intro listed
    obtain ⟨entry, mem, below⟩ := List.mem_flatMap.1 listed
    obtain ⟨rest, same⟩ := lists_walkFrom.exists_of_mem_operand keys mem below
    have whole : (place, found) ∈ node.walkFrom path := split ▸ List.mem_cons_of_mem _ listed
    obtain ⟨through, same', there⟩ := (mem_walkFrom_iff distinct).1 whole
    obtain rfl : through = entry.1 :: rest := List.append_cancel_left (same'.symm.trans same)
    exact ⟨entry.1, rest, same, there⟩
  · rintro ⟨segment, below, rfl, there⟩
    have whole : (path ++ segment :: below, found) ∈ node.walkFrom path :=
      (mem_walkFrom_iff distinct).2 ⟨segment :: below, rfl, there⟩
    rw [split, List.mem_cons] at whole
    refine whole.resolve_left fun own => ?_
    have same := congrArg Prod.fst own
    simp at same

end Node

namespace ViewNode

variable {root node : Node} {path : Path} {errors : PathErrors} {evaluations : PathEvaluations}

/-- There are errors below a node if a path that goes on from it has any. -/
theorem hasNestedErrors_build_iff (distinct : root.Everywhere Node.OwnDistinctKeys)
    (here : root.at? path = some node) :
    (build errors evaluations path node).hasNestedErrors = true ↔
      ∃ segment below found, root.at? (path ++ segment :: below) = some found ∧
        errors.errorsAt (path ++ segment :: below) ≠ [] := by
  have through (below : Path) : root.at? (path ++ below) = node.at? below := by
    rw [Node.at?_append, here]
    rfl
  rw [hasNestedErrors_build, List.any_eq_true]
  constructor
  · rintro ⟨⟨place, found⟩, behind, present⟩
    obtain ⟨segment, below, rfl, there⟩ := (Node.mem_tail_walkFrom_iff (distinct.at? here)).1 behind
    exact ⟨segment, below, found, (through _).trans there, by simpa using present⟩
  · rintro ⟨segment, below, found, there, present⟩
    have behind : (path ++ segment :: below, found) ∈ (node.walkFrom path).tail :=
      (Node.mem_tail_walkFrom_iff (distinct.at? here)).2
        ⟨segment, below, rfl, (through _).symm.trans there⟩
    exact ⟨_, behind, by simpa using present⟩

/-- **A view mirrors its tree.** It has as many nodes as the tree, and a path leads to a node of the
view exactly if it leads to one of the tree. There the view has this very node, the path, and the
errors and the evaluation that are stored for the path, and it has as many nodes as are below.
Errors are said to be nested if some path that goes further has any; the errors below are those of
the paths through the node, in pre-order. -/
theorem mirrors (root : Node) (errors : PathErrors) (evaluations : PathEvaluations)
    (distinct : root.DistinctKeys) :
    let view := ofTree root errors evaluations
    view.size = root.size ∧
    ∀ path,
      ((∃ shown, view.at? path = some shown) ↔ ∃ node, root.at? path = some node) ∧
      ∀ shown, view.at? path = some shown →
        root.at? path = some shown.node ∧ shown.path = path ∧
        shown.errors = (errors.get? path).getD [] ∧ shown.evaluation = evaluations.get? path ∧
        shown.size = shown.node.size ∧
        (shown.hasNestedErrors = true ↔ ∃ segment below found,
          root.at? (path ++ segment :: below) = some found ∧
            (errors.get? (path ++ segment :: below)).getD [] ≠ []) ∧
        ∃ places : List Path,
          (∀ place, place ∈ places ↔ (∃ found, root.at? place = some found) ∧ path <+: place) ∧
          places.Pairwise (OperandTree.Before root) ∧
          shown.errorsBelow =
            places.flatMap fun place => ((errors.get? place).getD []).map (place, ·) := by
  intro view
  have keys := (Node.distinctKeys_iff root).1 distinct
  refine ⟨size_build errors evaluations Path.root root, fun path => ⟨?_, fun shown shownAt => ?_⟩⟩
  · rw [at?_ofTree]
    simp
  · rw [at?_ofTree] at shownAt
    obtain ⟨node, here, rfl⟩ := Option.map_eq_some_iff.1 shownAt
    obtain ⟨same, itsPath, itsErrors, itsEvaluation⟩ := own_build errors evaluations path node
    obtain ⟨listed, order⟩ := Node.exists_placesThrough keys here
    refine ⟨same.symm ▸ here, itsPath, itsErrors, itsEvaluation, ?_, ?_, _, listed, order, ?_⟩
    · rw [same, size_build]
    · exact hasNestedErrors_build_iff keys here
    · rw [errorsBelow_build, List.flatMap_map]
      rfl

/-- A filter row without a value, where the missing value was reported, and so was an operand that
is gone since. The first report is shown below the row, the second one nowhere. -/
theorem mirrors_row_without_value :
    let operator : Node := ⟨1, .constant, some (.string Name.equal), [], []⟩
    let value : Node := ⟨2, .undefined, none, [], []⟩
    let row : Node :=
      ⟨0, .function Name.filter, none, [], [(Slot.operator, operator), (Slot.value, value)]⟩
    let missing : EvaluationError := .ofCode .argumentRequired
    let errors : PathErrors :=
      .ofList [([.child 7], [.ofCode .unexpectedError]), ([.named Slot.value], [missing])]
    let view := ofTree row errors ∅
    row.DistinctKeys ∧ view.size = 3 ∧ view.hasNestedErrors = true ∧
      view.errorsBelow = [([.named Slot.value], missing)] ∧
      ¬∃ shown, view.at? [.child 7] = some shown := by
  intro operator value row missing errors view
  have distinct : row.DistinctKeys := by
    simp [row, operator, value, Node.DistinctKeys, Node.DistinctKeysAll, Node.DistinctKeysNamed,
      Slot.operator, Slot.value]
  obtain ⟨size, places⟩ := mirrors row errors ∅ distinct
  obtain ⟨-, -, -, -, -, nested, -⟩ := (places Path.root).2 view rfl
  refine ⟨distinct, size.trans (by decide +kernel), nested.2 ?_, by decide +kernel, ?_⟩
  · exact ⟨.named Slot.value, [], value, rfl, by decide +kernel⟩
  · rw [(places [.child 7]).1]
    rintro ⟨node, there⟩
    cases there

end ViewNode

end RuleEditor
