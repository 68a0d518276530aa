import Mathlib.Data.List.Basic
import RuleEditor.Editor.Intent
import RuleEditor.Proofs.Action

/-!
# What an edit does to a tree

`Node.Reduced` lists, for every kind of edit, the trees that carrying it out can give: always the
old tree with one node replaced, and always by a node that is made of the old one and of what the
edit brings along. `Node.reduce_spec` says that there is nothing else, so that no later proof has to
look into `Node.reduce`.

Two edits are less simple than that. Taking a node out (`Node.Removed`) replaces its parent, unless
its place has a meaning of its own; and in an OR of ANDs a second removal may follow it.
-/

namespace RuleEditor

/-! ## Steps that succeed -/

namespace Edit

variable {α : Type} {next rest : Nat}

theorem fresh_eq_ok {action : Fresh α} {result : α × Nat} :
    fresh action next = .ok result ↔ action next = result :=
  ⟨Except.ok.inj, congrArg Except.ok⟩

theorem stale_eq_ok {action : StateT Nat (Except StalePath) α} {result : α × Nat} :
    stale action next = .ok result ↔ action next = .ok result := by
  rw [stale]
  cases action next <;> simp

theorem located_eq_ok {found : Except StalePath α} {value : α} :
    located found next = .ok (value, rest) ↔ found = .ok value ∧ next = rest := by
  cases found <;> simp [located]

theorem applicable_eq_ok {kind : IntentKind} {path : Path} {found : Option α} {value : α} :
    applicable kind path found next = .ok (value, rest) ↔ found = some value ∧ next = rest := by
  cases found <;> simp [applicable]

theorem commit_eq_ok {draft : Draft} {result : Node × Nat} :
    commit draft next = .ok result ↔
      draft.problems = [] ∧ draft.current.toNode next = result := by
  rw [commit, Draft.commit]
  cases draft.problems <;> simp

end Edit

namespace Path

@[simp] theorem parent?_concat (path : Path) (segment : Segment) :
    parent? (path ++ [segment]) = some path := by
  simp [parent?]

@[simp] theorem last?_concat (path : Path) (segment : Segment) :
    last? (path ++ [segment]) = some segment := by
  simp [last?]

end Path

namespace Node

variable {root node new updated : Node} {path : Path} {next rest : Nat}

theorem get_eq_ok : root.get path = .ok node ↔ root.at? path = some node := by
  rw [get]
  cases root.at? path <;> simp

theorem put_eq_ok : root.put path new = .ok updated ↔ root.put? new path = some updated := by
  rw [put]
  cases root.put? new path <;> simp

/-! ## Taking a node out -/

/-- What taking out the node at a path gives. -/
inductive Removed (root : Node) (next : Nat) : Path → Node → Nat → Prop
  /-- The root is replaced by a placeholder. -/
  | root : Removed root next [] (undefined next).1 (undefined next).2
  /-- An operand of a node with any number of operands goes without a trace. -/
  | erased {path : Path} {index : Nat} {parent updated : Node}
      (found : root.at? path = some parent) (bound : index < parent.children.length)
      (variadic : parent.isVariadic = true)
      (put : root.put? { parent with children := parent.children.eraseIdx index } path =
        some updated) :
      Removed root next (path ++ [.child index]) updated next
  /-- Any other positional operand is replaced by a placeholder. -/
  | blanked {path : Path} {index : Nat} {parent updated : Node}
      (found : root.at? path = some parent) (bound : index < parent.children.length)
      (fixed : parent.isVariadic = false)
      (put : root.put? { parent with children := parent.children.set index (undefined next).1 }
        path = some updated) :
      Removed root next (path ++ [.child index]) updated (undefined next).2
  /-- A named operand is replaced by a placeholder. -/
  | slot {path : Path} {key : String} {updated : Node}
      (put : root.put? (undefined next).1 (path ++ [.named key]) = some updated) :
      Removed root next (path ++ [.named key]) updated (undefined next).2

theorem remove_spec (h : root.remove path next = .ok (updated, rest)) :
    Removed root next path updated rest := by
  rcases List.eq_nil_or_concat' path with rfl | ⟨parentPath, segment, rfl⟩
  · cases h
    exact .root
  · cases segment with
    | named key =>
      simp only [remove, Path.parent?_concat, Path.last?_concat] at h
      obtain ⟨changed, put, h⟩ := Except.bind_eq_ok.1 h
      cases h
      exact .slot (put_eq_ok.1 put)
    | child index =>
      simp only [remove, Path.parent?_concat, Path.last?_concat, Except.bind_eq_ok,
        get_eq_ok] at h
      obtain ⟨parent, found, h⟩ := h
      split at h
      · cases h
      next within =>
      have bound : index < parent.children.length := Nat.lt_of_not_le within
      split at h
      · next variadic =>
        obtain ⟨changed, put, h⟩ := Except.bind_eq_ok.1 h
        cases h
        exact .erased found bound variadic (put_eq_ok.1 put)
      · next fixed =>
        obtain ⟨changed, put, h⟩ := Except.bind_eq_ok.1 h
        cases h
        exact .blanked found bound (Bool.eq_false_iff.2 fixed) (put_eq_ok.1 put)

/-- What taking out a condition of a tree gives. -/
inductive Pruned (root : Node) (next : Nat) (path : Path) : Node → Nat → Prop
  | kept {updated : Node} {rest : Nat} (removed : Removed root next path updated rest) :
      Pruned root next path updated rest
  /-- A branch of an OR of ANDs that has no condition left is taken out as well. -/
  | emptied {index condition mid rest : Nat} {updated pruned : Node}
      (shape : path = [.child index, .child condition]) (before : root.isOrOfAnd = true)
      (removed : Removed root next path updated mid) (after : updated.isOrOfAnd = true)
      (empty : (updated.child? index).any (·.children.isEmpty) = true)
      (branch : Removed updated mid [.child index] pruned rest) :
      Pruned root next path pruned rest

theorem removeCondition_spec (h : root.removeCondition path next = .ok (updated, rest)) :
    Pruned root next path updated rest := by
  obtain ⟨⟨pruned, mid⟩, removed, h⟩ := Except.bind_eq_ok.1 h
  have removed := remove_spec removed
  dsimp only at h
  split at h
  · split at h
    · next index condition shape =>
      simp only [Bool.and_eq_true] at shape
      exact .emptied rfl shape.1.1 removed shape.1.2 shape.2 (remove_spec h)
    · cases h
      exact .kept removed
  · cases h
    exact .kept removed

/-! ## Edits -/

/-- What carrying out an edit gives. -/
inductive Reduced (root : Node) (next : Nat) : Intent → Node → Nat → Prop
  | setOperand {path : Path} {node updated : Node} (put : root.put? node path = some updated) :
      Reduced root next (.setOperand path node) updated next
  | setOperator {path : Path} {name old : String} {node renamed updated : Node} {rest : Nat}
      (found : root.at? path = some node) (function : node.function? = some old)
      (rename : node.withOperator name next = (renamed, rest))
      (put : root.put? renamed path = some updated) :
      Reduced root next (.setOperator path name) updated rest
  | appendChild {path : Path} {operand parent updated : Node}
      (found : root.at? path = some parent) (variadic : parent.isVariadic = true)
      (put : root.put? (parent.push operand) path = some updated) :
      Reduced root next (.appendChild path operand) updated next
  | removed {path : Path} {updated : Node} {rest : Nat} (shape : root.isOrOfAnd = false)
      (removed : Removed root next path updated rest) :
      Reduced root next (.remove path) updated rest
  | pruned {path : Path} {updated : Node} {rest : Nat} (shape : root.isOrOfAnd = true)
      (pruned : Pruned root next path updated rest) :
      Reduced root next (.remove path) updated rest
  | nest {path : Path} {node nested updated : Node} {rest : Nat}
      (found : root.at? path = some node) (nest : node.nest? next = (some nested, rest))
      (put : root.put? nested path = some updated) :
      Reduced root next (.nest path) updated rest
  | unnest {path : Path} {node unnested updated : Node}
      (found : root.at? path = some node) (unnest : node.unnest? = some unnested)
      (put : root.put? unnested path = some updated) :
      Reduced root next (.unnest path) updated next
  | addOrBranch {updated : Node} {rest : Nat}
      (added : root.addOrBranch? next = (some updated, rest)) :
      Reduced root next .addOrBranch updated rest
  | addAndCondition {branch : Nat} {updated : Node} {rest : Nat}
      (added : root.addAndCondition? branch next = (some updated, rest)) :
      Reduced root next (.addAndCondition branch) updated rest
  | commitAggregation {path : Path} {draft : Draft} {node updated : Node} {rest : Nat}
      (valid : draft.problems = []) (build : draft.current.toNode next = (node, rest))
      (put : root.put? node path = some updated) :
      Reduced root next (.commitAggregation path draft) updated rest

open Edit in
/-- **Every edit that succeeds is listed.** -/
theorem reduce_spec {intent : Intent} (h : root.reduce intent next = .ok (updated, rest)) :
    Reduced root next intent updated rest := by
  cases intent with
  | setOperand path node =>
    obtain ⟨put, rfl⟩ := located_eq_ok.1 h
    exact .setOperand (put_eq_ok.1 put)
  | setOperator path name =>
    obtain ⟨node, _, look, h⟩ := StateT.bind_eq_ok.1 h
    obtain ⟨found, rfl⟩ := located_eq_ok.1 look
    obtain ⟨old, _, applies, h⟩ := StateT.bind_eq_ok.1 h
    obtain ⟨function, rfl⟩ := applicable_eq_ok.1 applies
    obtain ⟨renamed, _, fresh, h⟩ := StateT.bind_eq_ok.1 h
    obtain ⟨put, rfl⟩ := located_eq_ok.1 h
    exact .setOperator (get_eq_ok.1 found) function (fresh_eq_ok.1 fresh) (put_eq_ok.1 put)
  | appendChild path operand =>
    obtain ⟨parent, _, look, h⟩ := StateT.bind_eq_ok.1 h
    obtain ⟨found, rfl⟩ := located_eq_ok.1 look
    split at h
    · next variadic =>
      obtain ⟨appended, rfl⟩ := located_eq_ok.1 h
      obtain ⟨_, again, put⟩ := Except.bind_eq_ok.1 appended
      cases found.symm.trans again
      exact .appendChild (get_eq_ok.1 found) variadic (put_eq_ok.1 put)
    · cases h
  | remove path =>
    rw [reduce] at h
    split at h
    · next shape => exact .pruned shape (removeCondition_spec (stale_eq_ok.1 h))
    · next shape => exact .removed (Bool.eq_false_iff.2 shape) (remove_spec (stale_eq_ok.1 h))
  | nest path =>
    obtain ⟨node, _, look, h⟩ := StateT.bind_eq_ok.1 h
    obtain ⟨found, rfl⟩ := located_eq_ok.1 look
    obtain ⟨_, _, fresh, h⟩ := StateT.bind_eq_ok.1 h
    obtain ⟨nested, _, applies, h⟩ := StateT.bind_eq_ok.1 h
    obtain ⟨rfl, rfl⟩ := applicable_eq_ok.1 applies
    obtain ⟨put, rfl⟩ := located_eq_ok.1 h
    exact .nest (get_eq_ok.1 found) (fresh_eq_ok.1 fresh) (put_eq_ok.1 put)
  | unnest path =>
    obtain ⟨node, _, look, h⟩ := StateT.bind_eq_ok.1 h
    obtain ⟨found, rfl⟩ := located_eq_ok.1 look
    obtain ⟨unnested, _, applies, h⟩ := StateT.bind_eq_ok.1 h
    obtain ⟨unnest, rfl⟩ := applicable_eq_ok.1 applies
    obtain ⟨put, rfl⟩ := located_eq_ok.1 h
    exact .unnest (get_eq_ok.1 found) unnest (put_eq_ok.1 put)
  | addOrBranch =>
    obtain ⟨_, _, fresh, h⟩ := StateT.bind_eq_ok.1 h
    obtain ⟨rfl, rfl⟩ := applicable_eq_ok.1 h
    exact .addOrBranch (fresh_eq_ok.1 fresh)
  | addAndCondition branch =>
    obtain ⟨_, _, fresh, h⟩ := StateT.bind_eq_ok.1 h
    obtain ⟨rfl, rfl⟩ := applicable_eq_ok.1 h
    exact .addAndCondition (fresh_eq_ok.1 fresh)
  | commitAggregation path draft =>
    obtain ⟨node, _, commit, h⟩ := StateT.bind_eq_ok.1 h
    obtain ⟨valid, build⟩ := commit_eq_ok.1 commit
    obtain ⟨put, rfl⟩ := located_eq_ok.1 h
    exact .commitAggregation valid build (put_eq_ok.1 put)

end Node

end RuleEditor
