import RuleEditor.Proofs.Path.Removal

/-!
# The walk of a tree

The walk lists the paths that lead to the nodes of a tree, each of them once, with the node that is
there, and so it is as long as the tree has nodes.

**Order** (`Node.walk_in_preorder`). Directly behind a node stand the walks of its operands: first
those by position, in the order of their positions, then those by name, in the order in which they
are stored. This is so at the node of every path, since what the walk lists for a node stands in one
piece and is the walk of this node alone, with the path in front (`Node.walkAt`).
-/

namespace RuleEditor.Node

variable {root node : Node}

/-! ## Walks of operands -/

/-- The walk of a tree that stands at a path in another one. -/
def walkAt (path : Path) (node : Node) : List (Path × Node) :=
  node.walk.map fun entry => (path ++ entry.1, entry.2)

theorem walkFrom_eq_walkAt (path : Path) (node : Node) : walkFrom path node = node.walkAt path := by
  have further := lists_walkFrom.append_eq path Path.root node
  rwa [Path.root, List.append_nil] at further

/-- A node stands in front of the walks of its operands. -/
theorem walkAt_eq (path : Path) (node : Node) :
    node.walkAt path = (path, node) ::
      ((node.children.zipIdx.flatMap fun entry => entry.1.walkAt (path.child entry.2)) ++
        node.named.flatMap fun entry => entry.2.walkAt (path.named entry.1)) := by
  rw [← walkFrom_eq_walkAt, walkFrom_eq, operands, List.flatMap_append, List.flatMap_map,
    List.flatMap_map]
  simp only [walkFrom_eq_walkAt, Path.child, Path.named]

/-- What the walk lists for a node stands in one piece. -/
theorem exists_walk_split {path : Path} (here : root.at? path = some node) :
    ∃ before after, root.walk = before ++ node.walkAt path ++ after := by
  obtain ⟨before, after, split⟩ :=
    lists_walkFrom.exists_split (operandTree_at?.trans here) Path.root
  exact ⟨before, after, walkFrom_eq_walkAt path node ▸ split⟩

/-! ## The whole walk -/

theorem length_walk (root : Node) : root.walk.length = root.size := by
  have counted : (root.walk.map fun _ => 1).sum = root.size :=
    lists_walkFrom.sum_eq size_eq_operands
  rwa [List.map_const', List.sum_replicate_nat, Nat.mul_one] at counted

/-- **The walk lists a tree in pre-order.** It has exactly the paths that lead to a node, each once
and with this node, and so as many entries as the tree has nodes. A node comes before the nodes
below it and before those below later operands. Directly behind the node that a path leads to stand
the walks of its operands: of the positional ones by their positions, and then of the named ones as
they are stored. -/
theorem walk_in_preorder (root : Node) (distinct : root.DistinctKeys) :
    (∀ path node, (path, node) ∈ root.walk ↔ root.at? path = some node) ∧
    (root.walk.map Prod.fst).Nodup ∧
    root.walk.length = root.size ∧
    (root.walk.map Prod.fst).Pairwise (OperandTree.Before root) ∧
    ∀ path node, root.at? path = some node →
      ∃ before after, root.walk = before ++ ((path, node) ::
        ((node.children.zipIdx.flatMap fun entry => entry.1.walkAt (path.child entry.2)) ++
          node.named.flatMap fun entry => entry.2.walkAt (path.named entry.1))) ++ after := by
  have keys := (distinctKeys_iff root).1 distinct
  have order : (root.walk.map Prod.fst).Pairwise (OperandTree.Before root) :=
    lists_walkFrom.pairwise_paths (operandTree_everywhere keys) rfl
  refine ⟨fun path node => mem_walk_iff keys, nodup_walk keys, length_walk root, order,
    fun path node here => ?_⟩
  rw [← walkAt_eq]
  exact exists_walk_split here

/-- A row whose value is stored before its operator stands in a rule twice, by position and by
name. -/
theorem walk_in_preorder_of_repeated_row :
    let value : Node := ⟨2, .undefined, none, [], []⟩
    let operator : Node := ⟨3, .constant, some (.string Name.equal), [], []⟩
    let row : Node :=
      ⟨1, .function Name.filter, none, [], [(Slot.value, value), (Slot.operator, operator)]⟩
    let root : Node := ⟨0, .function Name.and, none, [row, value], [(Slot.filters, row)]⟩
    root.DistinctKeys ∧ root.walk.length = 8 ∧
      ([.named Slot.filters, .named Slot.operator], operator) ∈ root.walk ∧
      (∀ node, ([.child 2], node) ∉ root.walk) ∧
      ∃ before after, root.walk = before ++ [([.child 0], row),
        ([.child 0, .named Slot.value], value),
        ([.child 0, .named Slot.operator], operator)] ++ after := by
  intro value operator row root
  have distinct : root.DistinctKeys := by
    simp [root, row, operator, value, DistinctKeys, DistinctKeysAll, DistinctKeysNamed,
      Slot.operator, Slot.value]
  obtain ⟨listed, -, length, -, behind⟩ := walk_in_preorder root distinct
  refine ⟨distinct, length.trans (by decide +kernel), (listed _ _).2 (by rfl), fun node there => ?_,
    behind [.child 0] row rfl⟩
  exact absurd ((listed _ _).1 there) nofun

end RuleEditor.Node
