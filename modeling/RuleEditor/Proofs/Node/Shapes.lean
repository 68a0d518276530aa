import RuleEditor.Condition
import RuleEditor.Proofs.Path.Tree
import RuleEditor.Proofs.Validation.Complete

/-!
# Root shapes

`wrapInAnd` and `wrapInOrOfAnd` bring every tree into one of the two shapes of a trigger condition.

**Nothing is lost** (`Conjoins`, `Disjoins`). The operands of the AND that a tree becomes are its
conditions: the operands of an AND, none if nothing is chosen yet, and the tree itself otherwise.
The ANDs under the OR that it becomes have the conditions of the operands of an OR, and of the tree
itself otherwise. They are the nodes of the tree, with their identities and in their order.

**Shapes** (`wrap_normalizes`). A layout shows exactly these conditions, and validation has nothing
against the root. A tree that has the shape stays as it is and takes no identity, so that wrapping
again changes nothing.
-/

namespace RuleEditor.Node

variable {tree root wrapped node : Node} {path : Path} {paths : List Path} {branches : List Branch}

/-! ## Conditions -/

/-- The conditions of a tree that is made an AND. -/
def conditions (tree : Node) : List Node :=
  if tree.applies Name.and then tree.children
  else if tree.isUndefined then []
  else [tree]

/-- The conditions of a tree that is made an OR of ANDs, branch by branch. -/
def branchConditions (tree : Node) : List (List Node) :=
  if tree.applies Name.or then tree.children.map conditions else [tree.conditions]

/-- The tree is an AND of the conditions of the other one. -/
structure Conjoins (tree wrapped : Node) : Prop where
  and : wrapped.applies Name.and = true
  children : wrapped.children = tree.conditions

/-- The tree is an OR of ANDs of the conditions of the other one. -/
structure Disjoins (tree wrapped : Node) : Prop where
  shape : wrapped.isOrOfAnd = true
  children : wrapped.children.map children = tree.branchConditions

theorem isOrOfAnd_iff : tree.isOrOfAnd = true ↔
    tree.applies Name.or = true ∧ ∀ branch ∈ tree.children, branch.applies Name.and = true := by
  rw [isOrOfAnd, Bool.and_eq_true, List.all_eq_true]

theorem conditions_of_and (and : tree.applies Name.and = true) : tree.conditions = tree.children :=
  if_pos and

/-! ## Wrapping -/

theorem wrapInAnd_of_and (and : tree.applies Name.and = true) (next : Nat) :
    tree.wrapInAnd next = (tree, next) := by
  rw [wrapInAnd, if_pos and]
  rfl

theorem wrapInOrOfAnd_of_shape (shape : tree.isOrOfAnd = true) (next : Nat) :
    tree.wrapInOrOfAnd next = (tree, next) := by
  rw [wrapInOrOfAnd, if_pos shape]
  rfl

theorem conjoins_wrapInAnd (tree : Node) (next : Nat) : tree.Conjoins (tree.wrapInAnd next).1 := by
  by_cases and : tree.applies Name.and = true
  · rw [wrapInAnd_of_and and]
    exact ⟨and, (conditions_of_and and).symm⟩
  · rw [wrapInAnd, if_neg and]
    by_cases blank : tree.isUndefined = true
    · rw [if_pos blank]
      exact ⟨decide_eq_true rfl, by simp [conditions, and, blank, apply, bare]; rfl⟩
    · rw [if_neg blank]
      exact ⟨decide_eq_true rfl, by simp [conditions, and, blank, apply, bare]; rfl⟩

theorem conjoins_all (trees : List Node) (next : Nat) :
    List.Forall₂ Conjoins trees (Fresh.all (trees.map wrapInAnd) next).1 := by
  induction trees generalizing next with
  | nil => exact .nil
  | cons tree rest ih => exact .cons (tree.conjoins_wrapInAnd next) (ih _)

theorem ands_of_forall {trees branches : List Node}
    (each : List.Forall₂ Conjoins trees branches) :
    (∀ branch ∈ branches, branch.applies Name.and = true) ∧
      branches.map children = trees.map conditions := by
  induction each with
  | nil => exact ⟨nofun, rfl⟩
  | cons here _ ih =>
    exact ⟨List.forall_mem_cons.2 ⟨here.and, ih.1⟩, congrArg₂ List.cons here.children ih.2⟩

theorem disjoins_of_forall {trees : List Node} (or : wrapped.applies Name.or = true)
    (each : List.Forall₂ Conjoins trees wrapped.children)
    (conditions : trees.map conditions = tree.branchConditions) : tree.Disjoins wrapped :=
  ⟨isOrOfAnd_iff.2 ⟨or, (ands_of_forall each).1⟩, (ands_of_forall each).2.trans conditions⟩

theorem disjoins_wrapInOrOfAnd (tree : Node) (next : Nat) :
    tree.Disjoins (tree.wrapInOrOfAnd next).1 := by
  by_cases shape : tree.isOrOfAnd = true
  · obtain ⟨or, and⟩ := isOrOfAnd_iff.1 shape
    rw [wrapInOrOfAnd_of_shape shape]
    refine ⟨shape, ?_⟩
    rw [branchConditions, if_pos or]
    exact (List.map_congr_left fun branch mem => conditions_of_and (and branch mem)).symm
  · rw [wrapInOrOfAnd, if_neg shape]
    by_cases or : tree.applies Name.or = true
    · rw [if_pos or]
      exact disjoins_of_forall or (conjoins_all tree.children next) (if_pos or).symm
    · rw [if_neg or]
      exact disjoins_of_forall (decide_eq_true rfl)
        (.cons (tree.conjoins_wrapInAnd next) .nil) (if_neg or).symm

/-! ## Layouts -/

theorem isOrOfAnd_of_and (and : tree.applies Name.and = true) : tree.isOrOfAnd = false := by
  rw [applies_iff] at and
  rw [isOrOfAnd, applies, and]
  rfl

theorem layout_of_and (and : root.applies Name.and = true) :
    root.layout Path.root = .rootAnd (root.childPaths Path.root) := by
  rw [layout, isOrOfAnd_of_and and, and]
  rfl

theorem layout_of_shape (shape : root.isOrOfAnd = true) :
    root.layout Path.root = .rootOrOfAnd (Node.branches Path.root 0 root.children) := by
  rw [layout, shape]
  rfl

/-- Each of the two layouts of a root tells its shape. -/
theorem shape_of_layout :
    (∀ paths, root.layout Path.root = .rootAnd paths → root.applies Name.and = true) ∧
      ∀ branches, root.layout Path.root = .rootOrOfAnd branches → root.isOrOfAnd = true := by
  have normal {layout : Layout} (same : root.layout Path.root = layout)
      (normal : layout.isTriggerRoot = true) :
      root.applies Name.and = true ∨ root.isOrOfAnd = true :=
    isTriggerRoot_layout_iff.1 (same ▸ normal)
  refine ⟨fun paths same => ?_, fun branches same => ?_⟩
  · refine (normal same rfl).resolve_right fun shape => ?_
    cases (layout_of_shape shape).symm.trans same
  · refine (normal same rfl).resolve_left fun and => ?_
    cases (layout_of_and and).symm.trans same

theorem map_at?_childPaths (found : root.at? path = some node) :
    (node.childPaths path).map root.at? = node.children.map some := by
  rw [childPaths, List.map_map]
  refine List.ext_getElem (by simp) fun index bound bound' => ?_
  have there : index < node.children.length := by simpa using bound'
  simp [Path.child, at?_append, found, at?_child, child?, there]

theorem map_at?_branches {index : Nat} {operands : List Node}
    (found : ∀ position operand, operands[position]? = some operand →
      root.at? (Path.child path (index + position)) = some operand) :
    (Node.branches path index operands).map (fun branch => branch.conditions.map root.at?) =
      operands.map fun operand => operand.children.map some := by
  induction operands generalizing index with
  | nil => rfl
  | cons operand rest ih =>
    have later : ∀ position operand, rest[position]? = some operand →
        root.at? (Path.child path (index + 1 + position)) = some operand := by
      intro position operand there
      rw [Nat.add_assoc, Nat.add_comm 1]
      exact found (position + 1) operand there
    exact congrArg₂ List.cons (map_at?_childPaths (found 0 operand rfl)) (ih later)

theorem at?_child_root {position : Nat} (there : root.children[position]? = some node) :
    root.at? (Path.child Path.root (0 + position)) = some node := by
  rw [Nat.zero_add]
  exact (at?_child root position).trans there

/-! ## Validation -/

theorem code_of_mem_nodeFindings {context : Option Context} {finding : Finding}
    (found : finding ∈ node.nodeFindings context path) :
    finding.2.code ≠ .rootShapeUnresolved := by
  intro unresolved
  obtain ⟨name, -, complaint⟩ := exists_complaint found
  cases complaint <;> simp_all

/-- Only the check of the root finds that its shape is unresolved. -/
theorem code_of_hasRootShape (shape : root.HasRootShape .trigger) (context : Option Context)
    (path : Path) :
    ∀ error ∈ (root.validateLocal .trigger context).errorsAt path,
      error.code ≠ .rootShapeUnresolved := by
  intro error mem
  have found := mem_errorsAt_validateLocal.1 mem
  rw [findings, rootFindings_eq_nil_iff.2 shape, List.nil_append, List.mem_flatMap] at found
  obtain ⟨⟨place, node⟩, -, found⟩ := found
  exact code_of_mem_nodeFindings found

/-! ## Wrapped trees -/

/-- **Every tree is made an AND or an OR of ANDs without losing a condition.** The layout of the
tree that it becomes shows its conditions, each once and in their order, branch by branch for an OR.
Validation never finds the shape of this tree unresolved. Trees that have the shape, wrapped ones
among them, stay as they are and take no identity. -/
theorem wrap_normalizes (tree : Node) (next : Nat) :
    let whole := (tree.wrapInAnd next).1
    let grouped := (tree.wrapInOrOfAnd next).1
    (∃ paths, whole.layout Path.root = .rootAnd paths ∧
      paths.map whole.at? = tree.conditions.map some) ∧
    (∃ branches, grouped.layout Path.root = .rootOrOfAnd branches ∧
      branches.map (fun branch => branch.conditions.map grouped.at?) =
        tree.branchConditions.map fun conditions => conditions.map some) ∧
    (∀ wrapped ∈ [whole, grouped], ∀ context path,
      ∀ error ∈ (wrapped.validateLocal .trigger context).errorsAt path,
        error.code ≠ .rootShapeUnresolved) ∧
    (∀ supply, whole.wrapInAnd supply = (whole, supply)) ∧
    (∀ supply, grouped.wrapInOrOfAnd supply = (grouped, supply)) ∧
    (∀ paths, tree.layout Path.root = .rootAnd paths → tree.wrapInAnd next = (tree, next)) ∧
    ∀ branches, tree.layout Path.root = .rootOrOfAnd branches →
      tree.wrapInOrOfAnd next = (tree, next) := by
  intro whole grouped
  obtain ⟨and, conditions⟩ := tree.conjoins_wrapInAnd next
  obtain ⟨shape, branches⟩ := tree.disjoins_wrapInOrOfAnd next
  refine ⟨⟨_, layout_of_and and, ?_⟩, ⟨_, layout_of_shape shape, ?_⟩, ?_, wrapInAnd_of_and and,
    wrapInOrOfAnd_of_shape shape, ?_, ?_⟩
  · rw [map_at?_childPaths rfl, ← conditions]
  · rw [map_at?_branches fun _ _ => at?_child_root, ← branches, List.map_map]
    rfl
  · intro wrapped mem context path
    refine code_of_hasRootShape (rootFindings_eq_nil_iff.1 ?_) context path
    have normal : (wrapped.layout Path.root).isTriggerRoot = true := by
      rcases List.mem_pair.1 mem with rfl | rfl
      · exact isTriggerRoot_layout_iff.2 (Or.inl and)
      · exact isTriggerRoot_layout_iff.2 (Or.inr shape)
    rw [rootFindings, if_pos normal]
  · exact fun paths same => wrapInAnd_of_and (shape_of_layout.1 paths same) next
  · exact fun branches same => wrapInOrOfAnd_of_shape (shape_of_layout.2 branches same) next

end RuleEditor.Node
