import RuleEditor.Proofs.Path.Spared

/-!
# Laws of replacing a node

A path into a tree works like a reference into a nested record: what is put there is found there, the
last of two nodes that are put there stays, and putting back what was there gives the old tree, its
identities included. Nodes beside the path stay the nodes that they were, and nodes above it are
rebuilt around the change (`Node.Rebuilt`). Nodes that are put at paths beside each other
(`Path.Beside`) do not get in each other's way.

**One step.** Each law is first one about replacing an operand (`Node.setStep`), where positions and
keys have to be told apart. The laws of paths (`Node.put_replaces`) follow by induction on the path,
which does not look into a node any more.
-/

namespace RuleEditor

/-- Neither path leads through the node that the other one leads to. -/
def Path.Beside (path other : Path) : Prop := ¬ path <+: other ∧ ¬ other <+: path

namespace Path.Beside

variable {path other : Path} {segment step : Segment}

theorem symm (beside : path.Beside other) : other.Beside path := ⟨beside.2, beside.1⟩

theorem tail (beside : Path.Beside (segment :: path) (segment :: other)) : path.Beside other :=
  ⟨fun within => beside.1 (List.cons_prefix_cons.2 ⟨rfl, within⟩),
    fun within => beside.2 (List.cons_prefix_cons.2 ⟨rfl, within⟩)⟩

end Path.Beside

namespace Node

variable {root node operand old new updated moved : Node} {path other above : Path}
  {segment step : Segment}

/-! ## One step -/

/-- Two states of a node whose operands may differ: as many by position, and the same keys in the
same order. -/
structure Rebuilt (node changed : Node) : Prop where
  id : changed.id = node.id
  name : changed.name = node.name
  constant : changed.constant = node.constant
  positions : changed.children.length = node.children.length
  keys : changed.named.map Prod.fst = node.named.map Prod.fst

theorem rebuilt_setStep (found : node.step? segment = some operand) (new : Node) :
    node.Rebuilt (node.setStep new segment) := by
  cases segment with
  | child index => exact ⟨rfl, rfl, rfl, List.length_set, rfl⟩
  | named key => exact ⟨rfl, rfl, rfl, rfl, Entries.map_fst_store_of_get? found new⟩

theorem setStep_self (found : node.step? segment = some operand) :
    node.setStep operand segment = node := by
  obtain ⟨id, name, constant, children, named⟩ := node
  cases segment with
  | child index =>
    obtain ⟨bound, rfl⟩ := List.getElem?_eq_some_iff.1 found
    exact congrArg (mk id name constant · named) (List.set_getElem_self bound)
  | named key => exact congrArg (mk id name constant children) (Entries.store_of_get? found)

theorem setStep_setStep (node old new : Node) (segment : Segment) :
    (node.setStep old segment).setStep new segment = node.setStep new segment := by
  cases segment with
  | child index => simp [setStep]
  | named key => simp [setStep, Entries.store_store]

theorem setStep_comm (apart : segment ≠ step) (found : node.step? segment = some operand)
    (old new : Node) :
    (node.setStep old segment).setStep new step = (node.setStep new step).setStep old segment := by
  cases segment with
  | child index =>
    cases step with
    | child position =>
      have other : index ≠ position := fun same => apart (congrArg Segment.child same)
      simp [setStep, List.set_comm old new other]
    | named key => rfl
  | named key =>
    cases step with
    | child position => rfl
    | named slot =>
      have other : key ≠ slot := fun same => apart (congrArg Segment.named same)
      simp [setStep, Entries.store_comm other found]

/-! ## Along a path -/

theorem put?_cons (root new : Node) (segment : Segment) (path : Path) :
    root.put? new (segment :: path) = (root.step? segment).bind fun operand =>
      (operand.put? new path).map fun changed => root.setStep changed segment := by
  rw [put?]
  refine Option.bind_congr fun operand _ => ?_
  cases operand.put? new path <;> rfl

/-- What a replacement below an operand does to the node. -/
theorem put?_cons_eq_some (step : root.step? segment = some operand) :
    root.put? new (segment :: path) = some updated ↔
      ∃ changed, operand.put? new path = some changed ∧ root.setStep changed segment = updated := by
  rw [put?_cons, step, Option.bind_some, Option.map_eq_some_iff]

theorem exists_put?_cons (put : root.put? new (segment :: path) = some updated) :
    ∃ operand changed, root.step? segment = some operand ∧
      operand.put? new path = some changed ∧ root.setStep changed segment = updated := by
  rw [put?_cons] at put
  obtain ⟨operand, step, put⟩ := Option.bind_eq_some_iff.1 put
  obtain ⟨changed, inner, same⟩ := Option.map_eq_some_iff.1 put
  exact ⟨operand, changed, step, inner, same⟩

/-- Whatever is found beside the path was there before, and nothing is missing there. -/
theorem at?_put?_of_beside (put : root.put? new path = some updated) (beside : path.Beside other) :
    updated.at? other = root.at? other := by
  induction path generalizing root updated other with
  | nil => exact absurd List.nil_prefix beside.1
  | cons segment path ih =>
    obtain ⟨operand, changed, found, inner, rfl⟩ := exists_put?_cons put
    cases other with
    | nil => exact absurd List.nil_prefix beside.2
    | cons next other =>
      rw [at?, at?]
      by_cases same : segment = next
      · subst same
        rw [step?_setStep_self found, found]
        exact ih inner beside.tail
      · rw [step?_setStep_of_ne same]

theorem exists_rebuilt_put? (put : root.put? new path = some updated) (within : above <+: path)
    (strict : above ≠ path) :
    ∃ node changed, root.at? above = some node ∧ updated.at? above = some changed ∧
      node.Rebuilt changed := by
  induction path generalizing root updated above with
  | nil => exact absurd (List.prefix_nil.1 within) strict
  | cons segment path ih =>
    obtain ⟨operand, changed, found, inner, rfl⟩ := exists_put?_cons put
    cases above with
    | nil => exact ⟨root, _, rfl, rfl, rebuilt_setStep found changed⟩
    | cons next above =>
      obtain ⟨rfl, below⟩ := List.cons_prefix_cons.1 within
      obtain ⟨node, rebuilt, there, again, same⟩ := ih inner below fun eq => strict (eq ▸ rfl)
      refine ⟨node, rebuilt, ?_, ?_, same⟩
      · rw [at?, found]
        exact there
      · rw [at?, step?_setStep_self found]
        exact again

theorem put?_self (found : root.at? path = some node) : root.put? node path = some root := by
  induction path generalizing root with
  | nil => exact found.symm
  | cons segment path ih =>
    obtain ⟨operand, step, found⟩ := Option.bind_eq_some_iff.1 found
    exact (put?_cons_eq_some step).2 ⟨operand, ih found, setStep_self step⟩

theorem put?_put? (put : root.put? old path = some updated) (new : Node) :
    updated.put? new path = root.put? new path := by
  induction path generalizing root updated with
  | nil => rfl
  | cons segment path ih =>
    obtain ⟨operand, changed, found, inner, rfl⟩ := exists_put?_cons put
    rw [put?_cons, put?_cons, step?_setStep_self found, found, Option.bind_some, Option.bind_some,
      ih inner]
    simp only [setStep_setStep]

/-- Nodes can be put beside each other in any order. -/
theorem put?_comm (put : root.put? old path = some updated) (beside : path.Beside other)
    (new : Node) :
    updated.put? new other = (root.put? new other).bind (·.put? old path) := by
  induction path generalizing root updated other with
  | nil => exact absurd List.nil_prefix beside.1
  | cons segment path ih =>
    obtain ⟨operand, changed, found, inner, rfl⟩ := exists_put?_cons put
    cases other with
    | nil => exact absurd List.nil_prefix beside.2
    | cons next other =>
      rw [put?_cons, put?_cons]
      by_cases same : segment = next
      · subst same
        rw [step?_setStep_self found, found, Option.bind_some, Option.bind_some,
          ih inner beside.tail]
        cases operand.put? new other with
        | none => rfl
        | some moved =>
          show _ = (root.setStep moved segment).put? old (segment :: path)
          rw [put?_cons, step?_setStep_self found]
          simp only [setStep_setStep]
          rfl
      · rw [step?_setStep_of_ne same]
        cases root.step? next with
        | none => rfl
        | some sibling =>
          rw [Option.bind_some, Option.bind_some]
          cases sibling.put? new other with
          | none => rfl
          | some moved =>
            show some _ = (root.setStep moved next).put? old (segment :: path)
            rw [put?_cons, step?_setStep_of_ne (Ne.symm same), found, Option.bind_some, inner]
            exact congrArg some (setStep_comm same found changed moved)

/-! ## The laws -/

/-- Two states of a tree that say the same outside of the node at a path. -/
structure SameOutside (root : Node) (path : Path) (updated : Node) : Prop where
  /-- Nodes beside the path stay the same nodes, and no other ones appear there. -/
  beside : ∀ other, path.Beside other → updated.at? other = root.at? other
  above : ∀ above, above <+: path → above ≠ path →
    ∃ node changed, root.at? above = some node ∧ updated.at? above = some changed ∧
      node.Rebuilt changed

theorem sameOutside_of_put? (put : root.put? new path = some updated) :
    root.SameOutside path updated where
  beside := fun _ => at?_put?_of_beside put
  above := fun _ => exists_rebuilt_put? put

/-- A tree in which the node at a path was replaced, beside the tree before. -/
structure Replaced (root : Node) (path : Path) (old new updated : Node) : Prop where
  here : updated.at? path = some new
  outside : root.SameOutside path updated
  /-- Nothing of the old tree is lost but the old node. -/
  back : updated.put path old = .ok root
  again : ∀ newer, updated.put path newer = root.put path newer
  /-- Another node can be put beside the new one before or after it. -/
  independent : ∀ other newer node, path.Beside other → root.at? other = some node →
    ∃ moved both, root.put other newer = .ok moved ∧ moved.put path new = .ok both ∧
      updated.put other newer = .ok both

theorem put_eq_put? (root new : Node) (path : Path) :
    root.put path new = (root.put? new path).elim (.error ⟨path⟩) .ok := by
  rw [put]
  cases root.put? new path <;> rfl

theorem replaced_of_put? (found : root.at? path = some old)
    (put : root.put? new path = some updated) : root.Replaced path old new updated where
  here := at?_put? put
  outside := sameOutside_of_put? put
  back := put_eq_ok.2 ((put?_put? put old).trans (put?_self found))
  again := fun newer => by rw [put_eq_put?, put_eq_put?, put?_put? put]
  independent := by
    intro other newer node beside there
    obtain ⟨moved, first⟩ := exists_put?_iff.2 ⟨node, there⟩
    have still : moved.at? path = some old :=
      (at?_put?_of_beside first beside.symm).trans found
    obtain ⟨both, second⟩ := exists_put?_iff.2 ⟨old, still⟩
    refine ⟨moved, both, put_eq_ok.2 first, put_eq_ok.2 second, put_eq_ok.2 ?_⟩
    rw [put?_comm put beside, first]
    exact second

/-- **Replacing a node is lawful.** It succeeds at the paths that lead to a node and at no other one,
and where it fails it says which path is stale. -/
theorem put_replaces (root new : Node) (path : Path) :
    (∀ old, root.at? path = some old →
      ∃ updated, root.put path new = .ok updated ∧ root.Replaced path old new updated) ∧
    (root.at? path = none → root.put path new = .error ⟨path⟩) := by
  constructor
  · intro old found
    obtain ⟨updated, put⟩ := exists_put?_iff.2 ⟨old, found⟩
    exact ⟨updated, put_eq_ok.2 put, replaced_of_put? found put⟩
  · intro stale
    cases put : root.put? new path with
    | none => rw [put_eq_put?, put, Option.elim]
    | some updated =>
      obtain ⟨old, found⟩ := exists_put?_iff.1 ⟨updated, put⟩
      cases stale.symm.trans found

end Node

end RuleEditor
