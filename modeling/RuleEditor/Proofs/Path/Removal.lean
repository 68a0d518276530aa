import RuleEditor.Proofs.Path.Replacement
import RuleEditor.Proofs.Path.Walk

/-!
# Laws of removing a node

**Items and slots.** The operands of an AND, an OR or a list are items (`Node.IsItem`): taken out,
one leaves no gap. Every other place means something by its position or its key, so it is kept, and a
placeholder is put there.

**Two changes.** An item goes by a replacement of the node that holds it, so what happens beside and
above that node is known from the laws of replacing, and what is left is to say how its operands move
up (`Node.Closed`). In all other cases the placeholder replaces the node itself (`Node.Blanked`).

**Size.** Replacing a node changes the size of the tree by the difference of the two nodes
(`Node.size_put?`); for an item this is the size of the removed subtree.
-/

namespace RuleEditor

/-- The names whose operands come and go. -/
theorem Name.arity_eq_variadic_iff {name : String} :
    arity name = .variadic ↔ name ∈ [Name.and, Name.or, Name.list] := by
  constructor
  · intro variadic
    unfold arity at variadic
    split at variadic
    · cases variadic
    split at variadic
    · cases variadic
    split at variadic
    · next known => simpa [isLogical, logical, or_assoc] using known
    · split at variadic <;> cases variadic
  · intro listed
    simp only [List.mem_cons, List.not_mem_nil, or_false] at listed
    rcases listed with rfl | rfl | rfl <;> decide

namespace Node

variable {root node operand parent old new updated : Node} {path above : Path} {segment : Segment}
  {index position next rest : Nat}

/-! ## Sizes -/

theorem sizeAll_eq (nodes : List Node) : sizeAll nodes = (nodes.map size).sum := by
  induction nodes with
  | nil => rfl
  | cons node rest ih => rw [sizeAll, ih, List.map_cons, List.sum_cons]

theorem sizeNamed_eq (named : List (String × Node)) :
    sizeNamed named = (named.map (·.2.size)).sum := by
  induction named with
  | nil => rfl
  | cons entry rest ih => rw [sizeNamed, ih, List.map_cons, List.sum_cons]

theorem size_eq (node : Node) :
    node.size = 1 + sizeAll node.children + sizeNamed node.named := by
  obtain ⟨id, name, constant, children, named⟩ := node
  rfl

theorem size_eq_operands (node : Node) :
    node.size = 1 + (node.operands.map (·.2.size)).sum := by
  have positions : (node.children.zipIdx.map fun entry => entry.1.size) = node.children.map size :=
    List.map_map.symm.trans (congrArg (List.map size) (List.zipIdx_map_fst 0 node.children))
  rw [size_eq, sizeAll_eq, sizeNamed_eq, operands, List.map_append, List.map_map, List.map_map,
    List.sum_append, Nat.add_assoc, ← positions]
  rfl

theorem size_setStep (found : node.step? segment = some operand) (new : Node) :
    (node.setStep new segment).size + operand.size = node.size + new.size := by
  obtain ⟨before, after, split, stored⟩ := exists_operands_setStep found
  rw [size_eq_operands, size_eq_operands node, stored, split]
  simp only [List.map_append, List.map_cons, List.sum_append, List.sum_cons]
  omega

/-- **Replacing a node replaces its size.** -/
theorem size_put? (found : root.at? path = some old) (put : root.put? new path = some updated) :
    updated.size + old.size = root.size + new.size := by
  induction path generalizing root updated with
  | nil =>
    cases found
    cases put
    exact Nat.add_comm ..
  | cons segment path ih =>
    obtain ⟨operand, changed, step, inner, rfl⟩ := exists_put?_cons put
    rw [at?, step] at found
    have below := ih found inner
    have here := size_setStep step changed
    omega

theorem size_withoutOperand (found : node.child? index = some operand) :
    (node.withoutOperand index).size + operand.size = node.size := by
  obtain ⟨bound, rfl⟩ := List.getElem?_eq_some_iff.1 found
  have perm := (List.getElem_cons_eraseIdx_perm bound).map size
  have sum := perm.sum_nat
  rw [List.map_cons, List.sum_cons] at sum
  rw [size_eq, size_eq node, sizeAll_eq, sizeAll_eq, withoutOperand]
  dsimp only
  omega

/-! ## Items -/

/-- The path leads to an operand by position of an AND, an OR or a list. -/
def IsItem (root : Node) (path above : Path) (index : Nat) : Prop :=
  path = above ++ [.child index] ∧
    ∃ parent, root.at? above = some parent ∧
      ∃ name ∈ [Name.and, Name.or, Name.list], parent.name = .function name

theorem isVariadic_iff :
    node.isVariadic = true ↔
      ∃ name ∈ [Name.and, Name.or, Name.list], node.name = .function name := by
  rw [isVariadic, function?]
  cases node.name with
  | undefined => simp
  | constant => simp
  | function name =>
    rw [decide_eq_true_iff, Name.arity_eq_variadic_iff]
    simp

theorem not_isItem_of_fixed {place : Path} {position : Nat} (found : root.at? path = some parent)
    (fixed : parent.isVariadic = false) :
    ¬ root.IsItem (path ++ [.child index]) place position := by
  rintro ⟨same, other, there, named⟩
  obtain ⟨rfl, -⟩ := List.append_inj' same rfl
  cases found.symm.trans there
  exact Bool.false_ne_true (fixed.symm.trans (isVariadic_iff.2 named))

/-! ## What is left -/

/-- An item was taken out: the items behind it move up by one place. -/
structure Closed (root : Node) (path : Path) (index : Nat) (removed updated : Node) : Prop where
  parent : ∃ parent, root.at? path = some parent ∧
    updated.at? path = some (parent.withoutOperand index)
  earlier : ∀ position below, position < index →
    updated.at? (path ++ .child position :: below) = root.at? (path ++ .child position :: below)
  later : ∀ position below, index ≤ position →
    updated.at? (path ++ .child position :: below) =
      root.at? (path ++ .child (position + 1) :: below)
  slots : ∀ key below,
    updated.at? (path ++ .named key :: below) = root.at? (path ++ .named key :: below)
  outside : root.SameOutside path updated
  size : updated.size + removed.size = root.size

/-- A placeholder was left. The nodes above it have all their operands, in the same places. -/
structure Blanked (root : Node) (path : Path) (id : Nat) (updated : Node) : Prop where
  here : updated.at? path = some ⟨id, .undefined, none, [], []⟩
  outside : root.SameOutside path updated

theorem step?_withoutOperand_of_lt (before : position < index) :
    (node.withoutOperand index).step? (.child position) = node.step? (.child position) :=
  List.getElem?_eraseIdx_of_lt before

theorem step?_withoutOperand_of_ge (behind : index ≤ position) :
    (node.withoutOperand index).step? (.child position) = node.step? (.child (position + 1)) :=
  List.getElem?_eraseIdx_of_ge behind

theorem at?_through (found : root.at? path = some node) (segment : Segment) (below : Path) :
    root.at? (path ++ segment :: below) = (node.step? segment).bind (·.at? below) := by
  rw [at?_append, found]
  rfl

theorem closed_of_put? (found : root.at? path = some parent)
    (step : parent.child? index = some operand)
    (put : root.put? (parent.withoutOperand index) path = some updated) :
    root.Closed path index operand updated := by
  have there : updated.at? path = some (parent.withoutOperand index) := at?_put? put
  refine ⟨⟨parent, found, there⟩, fun position below before => ?_, fun position below behind => ?_,
    fun key below => ?_, sameOutside_of_put? put, ?_⟩
  · rw [at?_through there, at?_through found, step?_withoutOperand_of_lt before]
  · rw [at?_through there, at?_through found, step?_withoutOperand_of_ge behind]
  · rw [at?_through there, at?_through found]
    rfl
  · have sum := size_put? found put
    have less := size_withoutOperand step
    omega

theorem blanked_of_put? (put : root.put? (undefined next).1 path = some updated) :
    root.Blanked path next updated where
  here := at?_put? put
  outside := sameOutside_of_put? put

/-- Replacing an operand replaces the node that holds it. -/
theorem put?_concat (found : root.at? path = some parent) (step : parent.step? segment = some operand)
    (new : Node) :
    root.put? new (path ++ [segment]) = root.put? (parent.setStep new segment) path := by
  induction path generalizing root with
  | nil =>
    cases found
    exact (put?_cons_eq_some step).2 ⟨new, rfl, rfl⟩
  | cons next path ih =>
    obtain ⟨child, inner, found⟩ := Option.bind_eq_some_iff.1 found
    rw [List.cons_append, put?_cons, put?_cons, inner, Option.bind_some, Option.bind_some, ih found]

/-- **A removal closes a gap or leaves a placeholder.** -/
theorem Removed.closed_or_blanked (removed : Removed root next path updated rest)
    (there : root.at? path = some node) :
    (∃ above index, root.IsItem path above index ∧ rest = next ∧
        root.Closed above index node updated) ∨
      (∀ above index, ¬ root.IsItem path above index) ∧ rest = next + 1 ∧
        root.Blanked path next updated := by
  cases removed with
  | root => exact Or.inr ⟨fun above index item => by simp [IsItem] at item, rfl, blanked_of_put? rfl⟩
  | @erased above index parent _ found bound variadic put =>
    have step : parent.step? (.child index) = some node := by rwa [at?_concat, found] at there
    have item : root.IsItem (above ++ [.child index]) above index :=
      ⟨rfl, parent, found, isVariadic_iff.1 variadic⟩
    exact Or.inl ⟨above, index, item, rfl, closed_of_put? found step put⟩
  | @blanked above index parent _ found bound fixed put =>
    have step : parent.step? (.child index) = some node := by rwa [at?_concat, found] at there
    have whole := (put?_concat found step _).trans put
    exact Or.inr ⟨fun _ _ => not_isItem_of_fixed found fixed, rfl, blanked_of_put? whole⟩
  | slot put =>
    refine Or.inr ⟨fun above index item => ?_, rfl, blanked_of_put? put⟩
    cases (List.append_inj' item.1 rfl).2

theorem IsItem.unique {place : Path} (item : root.IsItem path above index)
    (other : root.IsItem path place position) : place = above ∧ position = index := by
  obtain ⟨same, last⟩ := List.append_inj' (other.1.symm.trans item.1) rfl
  cases last
  exact ⟨same, rfl⟩

theorem IsItem.id_of_closed (item : root.IsItem path above index)
    (closed : root.Closed above index node updated) {place : Path} (within : place <+: path)
    (below : place ≠ path) :
    ∃ before after, root.at? place = some before ∧ updated.at? place = some after ∧
      after.id = before.id := by
  obtain ⟨rfl, -⟩ := item
  by_cases same : place = above
  · subst same
    obtain ⟨parent, found, left⟩ := closed.parent
    exact ⟨parent, _, found, left, rfl⟩
  · have higher : place <+: above := (List.prefix_concat_iff.1 within).resolve_left below
    obtain ⟨before, after, found, left, rebuilt⟩ := closed.outside.above place higher same
    exact ⟨before, after, found, left, rebuilt.id⟩

/-- **What a removal leaves.** Every node of a tree can be taken out. If it is an item, the items
behind it move up; if not, there is a new placeholder in its place. The nodes above it stay the same
nodes. -/
theorem remove_vacates (there : root.at? path = some node) (next : Nat) :
    ∃ updated rest, root.remove path next = .ok (updated, rest) ∧
      (∀ above index, root.IsItem path above index →
        rest = next ∧ root.Closed above index node updated) ∧
      ((∀ above index, ¬ root.IsItem path above index) →
        rest = next + 1 ∧ root.Blanked path next updated) ∧
      ∀ above, above <+: path → above ≠ path →
        ∃ before after, root.at? above = some before ∧ updated.at? above = some after ∧
          after.id = before.id := by
  obtain ⟨updated, rest, removed⟩ := exists_removed there next
  refine ⟨updated, rest, removed.remove_eq_ok, ?_⟩
  rcases removed.closed_or_blanked there with
    ⟨above, index, item, kept, closed⟩ | ⟨no, drawn, blanked⟩
  · refine ⟨fun place position other => ?_, fun no => absurd item (no above index),
      fun place => item.id_of_closed closed⟩
    obtain ⟨rfl, rfl⟩ := item.unique other
    exact ⟨kept, closed⟩
  · refine ⟨fun place position other => absurd other (no place position),
      fun _ => ⟨drawn, blanked⟩, fun place within below => ?_⟩
    obtain ⟨before, after, found, left, rebuilt⟩ := blanked.outside.above place within below
    exact ⟨before, after, found, left, rebuilt.id⟩

/-- The second of three conditions is taken out, and the third one takes its place. -/
theorem remove_vacates_second :
    ∃ root updated : Node, root.at? [.child 1] = some ⟨2, .undefined, none, [], []⟩ ∧
      root.remove [.child 1] 4 = .ok (updated, 4) ∧
      updated.at? [.child 1] = root.at? [.child 2] ∧ updated.size + 1 = root.size := by
  let condition (id : Nat) : Node := ⟨id, .undefined, none, [], []⟩
  let root : Node := ⟨0, .function Name.and, none, [condition 1, condition 2, condition 3], []⟩
  have there : root.at? [.child 1] = some (condition 2) := rfl
  have item : root.IsItem [.child 1] [] 1 :=
    ⟨rfl, root, rfl, Name.and, List.mem_cons_self, rfl⟩
  obtain ⟨updated, rest, removed, items, -, -⟩ := remove_vacates there 4
  obtain ⟨rfl, closed⟩ := items [] 1 item
  exact ⟨root, updated, there, removed, closed.later 1 [] (Nat.le_refl 1), closed.size⟩

end Node

end RuleEditor
