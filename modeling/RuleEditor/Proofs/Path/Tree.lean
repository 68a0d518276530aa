import RuleEditor.Proofs.Editor.Reduction

/-!
# Where a tree can be changed

**Resolving.** A node can be replaced, and it can be taken out, exactly if its path leads to it
(`exists_put?_iff`, `exists_remove_iff`). In an OR of ANDs the branch that loses its last condition
can be taken out as well, so a removal of a condition does not fail halfway
(`exists_removeCondition_iff`).

**Taking out.** `Node.Removed` is not only what a removal may give, it is what it gives
(`remove_eq_ok_iff`).
-/

namespace RuleEditor.Node

variable {root node new updated : Node} {path : Path} {next rest : Nat}

/-! ## Looking up and replacing -/

theorem at?_append (root : Node) (path below : Path) :
    root.at? (path ++ below) = (root.at? path).bind (·.at? below) := by
  induction path generalizing root with
  | nil => rfl
  | cons segment path ih =>
    rw [List.cons_append, at?, at?, Option.bind_assoc]
    congr 1
    funext operand
    exact ih operand

theorem at?_concat (root : Node) (path : Path) (segment : Segment) :
    root.at? (path ++ [segment]) = (root.at? path).bind (·.step? segment) := by
  rw [at?_append]
  congr 1
  funext node
  exact Option.bind_fun_some _

theorem at?_child (root : Node) (index : Nat) : root.at? [.child index] = root.child? index :=
  Option.bind_fun_some _

theorem exists_put?_iff :
    (∃ updated, root.put? new path = some updated) ↔ ∃ node, root.at? path = some node := by
  induction path generalizing root with
  | nil => exact iff_of_true ⟨new, rfl⟩ ⟨root, rfl⟩
  | cons segment path ih =>
    rw [put?, at?]
    cases root.step? segment with
    | none => exact iff_of_false nofun nofun
    | some operand =>
      rw [Option.bind_some, ← ih]
      simp [Option.bind_eq_some_iff]

/-! ## Taking out -/

theorem Removed.remove_eq_ok (removed : Removed root next path updated rest) :
    root.remove path next = .ok (updated, rest) := by
  cases removed with
  | root => rfl
  | erased found bound variadic put =>
    simp only [remove, Path.parent?_concat, Path.last?_concat]
    refine Except.bind_eq_ok.2 ⟨_, get_eq_ok.2 found, ?_⟩
    rw [if_neg (Nat.not_le.2 bound)]
    show (if _ then _ else _) = _
    rw [if_pos variadic]
    exact Except.bind_eq_ok.2 ⟨updated, put_eq_ok.2 put, rfl⟩
  | blanked found bound fixed put =>
    simp only [remove, Path.parent?_concat, Path.last?_concat]
    refine Except.bind_eq_ok.2 ⟨_, get_eq_ok.2 found, ?_⟩
    rw [if_neg (Nat.not_le.2 bound)]
    show (if _ then _ else _) = _
    rw [if_neg (Bool.eq_false_iff.1 fixed)]
    exact Except.bind_eq_ok.2 ⟨updated, put_eq_ok.2 put, rfl⟩
  | slot put =>
    simp only [remove, Path.parent?_concat, Path.last?_concat]
    exact Except.bind_eq_ok.2 ⟨updated, put_eq_ok.2 put, rfl⟩

/-- **What a removal gives.** -/
theorem remove_eq_ok_iff :
    root.remove path next = .ok (updated, rest) ↔ Removed root next path updated rest :=
  ⟨remove_spec, Removed.remove_eq_ok⟩

theorem exists_at?_of_lt {parent : Node} {index : Nat} (found : root.at? path = some parent)
    (bound : index < parent.children.length) :
    ∃ node, root.at? (path ++ [.child index]) = some node := by
  refine ⟨parent.children[index], ?_⟩
  rw [at?_concat, found]
  exact List.getElem?_eq_getElem bound

theorem Removed.exists_at? (removed : Removed root next path updated rest) :
    ∃ node, root.at? path = some node := by
  cases removed with
  | root => exact ⟨root, rfl⟩
  | erased found bound => exact exists_at?_of_lt found bound
  | blanked found bound => exact exists_at?_of_lt found bound
  | slot put => exact exists_put?_iff.1 ⟨_, put⟩

theorem exists_removed (found : root.at? path = some node) (next : Nat) :
    ∃ updated rest, Removed root next path updated rest := by
  rcases List.eq_nil_or_concat' path with rfl | ⟨above, segment, rfl⟩
  · exact ⟨_, _, .root⟩
  · cases segment with
    | child index =>
      obtain ⟨parent, here, step⟩ := Option.bind_eq_some_iff.1 ((at?_concat ..).symm.trans found)
      have bound : index < parent.children.length := (List.getElem?_eq_some_iff.1 step).1
      by_cases variadic : parent.isVariadic = true
      · obtain ⟨updated, put⟩ := exists_put?_iff.2 ⟨parent, here⟩
        exact ⟨updated, next, .erased here bound variadic put⟩
      · obtain ⟨updated, put⟩ := exists_put?_iff.2 ⟨parent, here⟩
        exact ⟨updated, _, .blanked here bound (Bool.eq_false_iff.2 variadic) put⟩
    | named key =>
      obtain ⟨updated, put⟩ := exists_put?_iff.2 ⟨node, found⟩
      exact ⟨updated, _, .slot put⟩

theorem exists_remove_iff :
    (∃ result, root.remove path next = .ok result) ↔ ∃ node, root.at? path = some node := by
  constructor
  · rintro ⟨⟨updated, rest⟩, removed⟩
    exact (remove_eq_ok_iff.1 removed).exists_at?
  · rintro ⟨node, found⟩
    obtain ⟨updated, rest, removed⟩ := exists_removed found next
    exact ⟨(updated, rest), remove_eq_ok_iff.2 removed⟩

theorem exists_removeCondition_iff :
    (∃ result, root.removeCondition path next = .ok result) ↔
      ∃ node, root.at? path = some node := by
  rw [← @exists_remove_iff root path next]
  constructor
  · rintro ⟨result, pruned⟩
    obtain ⟨updated, mid, removed, -⟩ := StateT.bind_eq_ok.1 pruned
    exact ⟨(updated, mid), removed⟩
  · rintro ⟨⟨updated, mid⟩, removed⟩
    suffices further : ∃ result, _ = Except.ok result from
      further.imp fun result after => StateT.bind_eq_ok.2 ⟨updated, mid, removed, after⟩
    split
    · dsimp only
      split
      · next index condition emptied =>
        -- A branch that is there to be empty can be taken out.
        have branch : ∃ branch, updated.at? [.child index] = some branch := by
          cases found : updated.child? index with
          | none => simp [found] at emptied
          | some branch => exact ⟨branch, (at?_child ..).trans found⟩
        exact exists_remove_iff.2 branch
      · exact ⟨_, rfl⟩
    · exact ⟨_, rfl⟩

end RuleEditor.Node
