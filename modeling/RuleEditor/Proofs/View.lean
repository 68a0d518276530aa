import RuleEditor.View

/-!
# Views and their trees

**Looking up** (`ViewNode.at?_build`). A path that leads to a node of the tree leads to the view of
that node, with the annotations of its path. A path that leads nowhere in the tree leads nowhere in
the view.

**Errors** (`ViewNode.errorsBelow_build`). The errors of a view are those of the paths that the walk
of the tree lists, in the order of the walk. There are errors below a node if there are any at the
paths that the walk lists after its own (`ViewNode.hasNestedErrors_build`).
-/

namespace RuleEditor.ViewNode

variable (errors : PathErrors) (evaluations : PathEvaluations)

/-! ## Looking up -/

/-- What the view of a node says about the node itself. -/
theorem own_build (path : Path) (node : Node) :
    let view := build errors evaluations path node
    view.node = node ∧ view.path = path ∧ view.errors = errors.errorsAt path ∧
      view.evaluation = evaluations.get? path := by
  cases node
  exact ⟨rfl, rfl, rfl, rfl⟩

theorem getElem?_buildChildren (path : Path) (start index : Nat) (children : List Node) :
    (buildChildren errors evaluations path start children)[index]? =
      children[index]?.map (build errors evaluations (path.child (start + index))) := by
  induction children generalizing start index with
  | nil => rfl
  | cons child rest ih =>
    rw [buildChildren]
    cases index with
    | zero => rfl
    | succ index =>
      rw [List.getElem?_cons_succ, List.getElem?_cons_succ, ih, Nat.add_right_comm, Nat.add_assoc]

theorem get?_buildNamed (path : Path) (key : String) (named : List (String × Node)) :
    Entries.get? key (buildNamed errors evaluations path named) =
      (Entries.get? key named).map (build errors evaluations (path.named key)) := by
  induction named with
  | nil => rfl
  | cons entry rest ih =>
    obtain ⟨other, node⟩ := entry
    rw [buildNamed, Entries.get?, Entries.get?]
    split
    · next same => exact same ▸ rfl
    · exact ih

theorem step?_build (path : Path) (segment : Segment) (node : Node) :
    (build errors evaluations path node).step? segment =
      (node.step? segment).map (build errors evaluations (path ++ [segment])) := by
  obtain ⟨id, name, constant, children, named⟩ := node
  cases segment with
  | child index =>
    have found := getElem?_buildChildren errors evaluations path 0 index children
    rwa [Nat.zero_add] at found
  | named key => exact get?_buildNamed errors evaluations path key named

/-- **A path leads to the same place in a tree and in its view.** -/
theorem at?_build (path below : Path) (node : Node) :
    (build errors evaluations path node).at? below =
      (node.at? below).map (build errors evaluations (path ++ below)) := by
  induction below generalizing path node with
  | nil =>
    rw [List.append_nil]
    rfl
  | cons segment below ih =>
    rw [at?, Node.at?, step?_build, Option.bind_map, Option.map_bind]
    congr 1
    funext operand
    rw [Function.comp_apply, ih, List.append_assoc]
    rfl

theorem at?_ofTree (root : Node) (path : Path) :
    (ofTree root errors evaluations).at? path =
      (root.at? path).map (build errors evaluations path) :=
  at?_build errors evaluations Path.root path root

/-! ## Errors -/

mutual

/-- **The errors of a view are those of the walk, in its order.** -/
theorem errorsBelow_build (path : Path) : ∀ node : Node,
    (build errors evaluations path node).errorsBelow =
      (node.walkFrom path).flatMap fun entry => (errors.errorsAt entry.1).map (entry.1, ·)
  | ⟨id, name, constant, children, named⟩ => by
    rw [build, errorsBelow, Node.walkFrom, List.flatMap_cons, List.flatMap_append,
      errorsBelowAll_buildChildren path 0 children, errorsBelowNamed_buildNamed path named,
      List.append_assoc]

theorem errorsBelowAll_buildChildren (path : Path) (index : Nat) : ∀ children : List Node,
    errorsBelowAll (buildChildren errors evaluations path index children) =
      (Node.walkChildren path index children).flatMap
        fun entry => (errors.errorsAt entry.1).map (entry.1, ·)
  | [] => rfl
  | child :: rest => by
    rw [buildChildren, errorsBelowAll, Node.walkChildren, List.flatMap_append,
      errorsBelow_build (path.child index) child,
      errorsBelowAll_buildChildren path (index + 1) rest]

theorem errorsBelowNamed_buildNamed (path : Path) : ∀ named : List (String × Node),
    errorsBelowNamed (buildNamed errors evaluations path named) =
      (Node.walkNamed path named).flatMap
        fun entry => (errors.errorsAt entry.1).map (entry.1, ·)
  | [] => rfl
  | (key, child) :: rest => by
    rw [buildNamed, errorsBelowNamed, Node.walkNamed, List.flatMap_append,
      errorsBelow_build (path.named key) child, errorsBelowNamed_buildNamed path rest]

end

/-! ## Flags -/

mutual

theorem anyErrors_build (path : Path) : ∀ node : Node,
    (build errors evaluations path node).anyErrors =
      (node.walkFrom path).any fun entry => !(errors.errorsAt entry.1).isEmpty
  | ⟨id, name, constant, children, named⟩ => by
    rw [build, anyErrors, Node.walkFrom, List.any_cons, List.any_append,
      anyErrorsAll_buildChildren path 0 children, anyErrorsNamed_buildNamed path named,
      Bool.or_assoc]

theorem anyErrorsAll_buildChildren (path : Path) (index : Nat) : ∀ children : List Node,
    anyErrorsAll (buildChildren errors evaluations path index children) =
      (Node.walkChildren path index children).any
        fun entry => !(errors.errorsAt entry.1).isEmpty
  | [] => rfl
  | child :: rest => by
    rw [buildChildren, anyErrorsAll, Node.walkChildren, List.any_append,
      anyErrors_build (path.child index) child,
      anyErrorsAll_buildChildren path (index + 1) rest]

theorem anyErrorsNamed_buildNamed (path : Path) : ∀ named : List (String × Node),
    anyErrorsNamed (buildNamed errors evaluations path named) =
      (Node.walkNamed path named).any fun entry => !(errors.errorsAt entry.1).isEmpty
  | [] => rfl
  | (key, child) :: rest => by
    rw [buildNamed, anyErrorsNamed, Node.walkNamed, List.any_append,
      anyErrors_build (path.named key) child, anyErrorsNamed_buildNamed path rest]

end

/-- **Errors below a node are those of the walk behind the node itself.** -/
theorem hasNestedErrors_build (path : Path) (node : Node) :
    (build errors evaluations path node).hasNestedErrors =
      (node.walkFrom path).tail.any fun entry => !(errors.errorsAt entry.1).isEmpty := by
  obtain ⟨id, name, constant, children, named⟩ := node
  rw [build, hasNestedErrors, Node.walkFrom, List.tail_cons, List.any_append,
    anyErrorsAll_buildChildren, anyErrorsNamed_buildNamed]

/-! ## Sizes -/

mutual

/-- **A view has a node for each node of the tree.** -/
theorem size_build (path : Path) : ∀ node : Node,
    (build errors evaluations path node).size = node.size
  | ⟨id, name, constant, children, named⟩ => by
    rw [build, size, Node.size, sizeAll_buildChildren path 0 children,
      sizeNamed_buildNamed path named]

theorem sizeAll_buildChildren (path : Path) (index : Nat) : ∀ children : List Node,
    sizeAll (buildChildren errors evaluations path index children) = Node.sizeAll children
  | [] => rfl
  | child :: rest => by
    rw [buildChildren, sizeAll, Node.sizeAll, size_build (path.child index) child,
      sizeAll_buildChildren path (index + 1) rest]

theorem sizeNamed_buildNamed (path : Path) : ∀ named : List (String × Node),
    sizeNamed (buildNamed errors evaluations path named) = Node.sizeNamed named
  | [] => rfl
  | (key, child) :: rest => by
    rw [buildNamed, sizeNamed, Node.sizeNamed, size_build (path.named key) child,
      sizeNamed_buildNamed path rest]

end

end RuleEditor.ViewNode
