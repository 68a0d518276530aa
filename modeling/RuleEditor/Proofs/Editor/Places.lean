import RuleEditor.Proofs.Path.Spared

/-!
# The places of edits

**Places** (`Intent.place`). An edit changes a tree at one place: at the node that it is addressed
to, at the right operand of this node when a group is opened or closed, behind its operands when
one is added. A branch that loses its last condition is the place of its removal.

**Gaps** (`Intent.closes`). An operand of a node with any number of operands is taken out without a
trace, so that the operands behind it move up. Every other edit leaves each node at its path.

**What edits leave alone** (`Node.spares_of_reduce`). No edit touches the identity of a node above
its place, nor anything of a node that is neither above nor below it.
-/

namespace RuleEditor

namespace Node

/-- The place behind the positional operands of the node at a path. -/
def endOf (root : Node) (path : Path) : Path :=
  path.child (((root.at? path).map (·.children.length)).getD 0)

/-- Whether a path leads to the only condition of a branch of an OR of ANDs. -/
def isLastCondition (root : Node) : Path → Bool
  | [.child index, .child _] =>
    root.isOrOfAnd && (root.child? index).any (·.children.length = 1)
  | _ => false

/-- Whether a path leads to an operand that goes without a trace when it is taken out. -/
def isListed (root : Node) (path : Path) : Bool :=
  match path.parent?, path.last? with
  | some parent, some (.child _) => (root.at? parent).any isVariadic
  | _, _ => false

end Node

namespace Intent

/-- Where the edit changes the tree. -/
def place (root : Node) : Intent → Path
  | .setOperand path _ => path
  | .setOperator path _ => path
  | .appendChild path _ => root.endOf path
  | .remove path => if root.isLastCondition path then path.dropLast else path
  | .nest path => path.child 1
  | .unnest path => path.child 1
  | .addOrBranch => root.endOf Path.root
  | .addAndCondition branch => root.endOf [.child branch]
  | .commitAggregation path _ => path

/-- Whether the edit closes the gap that it leaves at its place. -/
def closes (root : Node) (intent : Intent) : Bool :=
  match intent with
  | .remove _ => root.isListed (intent.place root)
  | _ => false

end Intent

namespace Node

variable {root updated : Node} {path : Path} {next rest : Nat}

theorem isListed_concat (root : Node) (path : Path) (index : Nat) :
    root.isListed (path ++ [.child index]) = (root.at? path).any isVariadic := by
  simp [isListed]

theorem Removed.spares (removed : Removed root next path updated rest) :
    root.Spares updated path (root.isListed path) := by
  cases removed with
  | root => exact .whole root _
  | @erased path index parent updated found bound variadic put =>
    rw [isListed_concat, found, Option.any_some, variadic]
    exact .put? found put (.erased parent index) (Or.inr (List.cons_ne_nil _ _))
  | @blanked path index parent updated found bound fixed put =>
    rw [isListed_concat, found, Option.any_some, fixed]
    have step : parent.step? (.child index) = some parent.children[index] :=
      List.getElem?_eq_getElem bound
    exact .put? found put (.setStep step (.whole _ _) (Or.inl rfl)) (Or.inl rfl)
  | @slot path key updated put =>
    have named : root.isListed (path ++ [.named key]) = false := by simp [isListed]
    obtain ⟨node, found⟩ := exists_put?_iff.1 ⟨updated, put⟩
    exact named ▸ .replaced found put

/-- A path of another form than those of conditions is the place of its removal. -/
theorem isLastCondition_eq_false
    (other : ∀ index condition, path ≠ [.child index, .child condition]) :
    root.isLastCondition path = false := by
  unfold isLastCondition
  split
  · exact absurd rfl (other _ _)
  · rfl

theorem spares_of_withoutCondition {index condition : Nat} {branch : Node}
    (shape : root.isOrOfAnd = true) (found : root.child? index = some branch) :
    root.Spares (root.withoutCondition index condition branch)
      ((Intent.remove [.child index, .child condition]).place root)
      ((Intent.remove [.child index, .child condition]).closes root) := by
  have variadic := isVariadic_of_isOrOfAnd shape
  have last : root.isLastCondition [.child index, .child condition] =
      decide (branch.children.length = 1) := by
    simp [isLastCondition, shape, found]
  rw [Intent.closes, Intent.place, last, withoutCondition]
  by_cases only : branch.children.length = 1
  · have gone : root.isListed [.child index] = true :=
      (isListed_concat root [] index).trans variadic.1
    simp only [only, decide_true, if_true, List.dropLast]
    rw [gone]
    exact .erased root index
  · have gone : root.isListed [.child index, .child condition] = true := by
      refine (isListed_concat root [.child index] condition).trans ?_
      rw [at?_child, found]
      exact variadic.2 branch (List.mem_of_getElem? found)
    simp only [only, decide_false, Bool.false_eq_true, if_false]
    rw [gone]
    have step : root.step? (.child index) = some branch := found
    exact .setStep step (.erased branch condition) (Or.inr (List.cons_ne_nil _ _))

theorem spares_of_removeCondition (shape : root.isOrOfAnd = true)
    (done : root.removeCondition path next = .ok (updated, rest)) :
    root.Spares updated ((Intent.remove path).place root) ((Intent.remove path).closes root) := by
  by_cases condition : ∃ index condition, path = [.child index, .child condition]
  · obtain ⟨index, condition, rfl⟩ := condition
    obtain ⟨node, found⟩ := exists_removeCondition_iff.1 ⟨_, done⟩
    obtain ⟨branch, here, found⟩ :=
      Option.bind_eq_some_iff.1 ((at?_concat root [.child index] _).symm.trans found)
    rw [at?_child] at here
    have bound : condition < branch.children.length := (List.getElem?_eq_some_iff.1 found).1
    cases (removeCondition_eq shape here bound).symm.trans done
    exact spares_of_withoutCondition shape here
  · have other : root.isLastCondition path = false :=
      isLastCondition_eq_false fun index position same => condition ⟨index, position, same⟩
    rw [Intent.closes, Intent.place, other]
    cases removeCondition_spec done with
    | kept removed => exact removed.spares
    | emptied same => exact absurd ⟨_, _, same⟩ condition

theorem spares_withRight {node right : Node} (found : node.child? 1 = some right) (new : Node) :
    node.Spares (node.withRight new) [.child 1] false := by
  have step : node.step? (.child 1) = some right := found
  exact .setStep step (.whole right new) (Or.inl rfl)

theorem yields_nest?_spares (node : Node) :
    node.nest?.Yields fun nested? =>
      ∀ nested, nested? = some nested → node.Spares nested [.child 1] false := by
  rw [nest?]
  split
  · next operator right line function found =>
    intro next nested eq
    cases eq
    exact spares_withRight found _
  · exact Fresh.yields_none

theorem yields_addOrBranch?_spares (root : Node) :
    root.addOrBranch?.Yields fun added =>
      ∀ updated, added = some updated → root.Spares updated (root.endOf Path.root) false := by
  rw [addOrBranch?]
  split
  · intro next updated eq
    cases eq
    exact .push root _
  · exact Fresh.yields_none

theorem yields_addAndCondition?_spares (root : Node) (index : Nat) :
    (root.addAndCondition? index).Yields fun added =>
      ∀ updated, added = some updated → root.Spares updated (root.endOf [.child index]) false := by
  rw [addAndCondition?]
  split
  · next branch shape found =>
    intro next updated eq
    cases eq
    have place : root.endOf [.child index] = [.child index, .child branch.children.length] := by
      rw [endOf, at?_child, found]
      rfl
    have step : root.step? (.child index) = some branch := found
    rw [place]
    exact .setStep step (.push branch _) (Or.inl rfl)
  · exact Fresh.yields_none

/-- **What an edit leaves alone.** -/
theorem spares_of_reduce {intent : Intent}
    (reduced : root.reduce intent next = .ok (updated, rest)) :
    root.Spares updated (intent.place root) (intent.closes root) := by
  cases reduce_spec reduced with
  | setOperand put =>
    obtain ⟨node, found⟩ := exists_put?_iff.1 ⟨updated, put⟩
    exact .replaced found put
  | setOperator found function rename put => exact .replaced found put
  | @appendChild path operand parent updated found variadic put =>
    have place : root.endOf path = path ++ [.child parent.children.length] := by
      rw [endOf, found]
      rfl
    rw [Intent.place, place]
    exact .put? found put (.push parent operand) (Or.inl rfl)
  | @removed path updated rest shape removed =>
    have other : root.isLastCondition path = false := by
      unfold isLastCondition
      split
      · rw [shape]
        rfl
      · rfl
    rw [Intent.closes, Intent.place, other]
    exact removed.spares
  | pruned shape pruned =>
    rw [reduce, if_pos shape] at reduced
    exact spares_of_removeCondition shape (Edit.stale_eq_ok.1 reduced)
  | @nest path node nested updated rest found nest put =>
    have spares := yields_nest?_spares node next
    rw [nest] at spares
    exact .put? found put (spares nested rfl) (Or.inl rfl)
  | @unnest path node unnested updated found unnest put =>
    obtain ⟨right, here, unnest⟩ := Option.bind_eq_some_iff.1 unnest
    obtain ⟨inner, below, unnest⟩ := Option.bind_eq_some_iff.1 unnest
    split at unnest
    · cases unnest
      exact .put? found put (spares_withRight here inner) (Or.inl rfl)
    · cases unnest
  | addOrBranch added =>
    have spares := yields_addOrBranch?_spares root next
    rw [added] at spares
    exact spares updated rfl
  | @addAndCondition branch updated rest added =>
    have spares := yields_addAndCondition?_spares root branch next
    rw [added] at spares
    exact spares updated rfl
  | commitAggregation valid build put =>
    obtain ⟨node, found⟩ := exists_put?_iff.1 ⟨updated, put⟩
    exact .replaced found put

end Node

end RuleEditor
