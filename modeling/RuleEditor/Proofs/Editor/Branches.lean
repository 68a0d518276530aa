import RuleEditor.Proofs.Editor.Arity
import RuleEditor.Proofs.Editor.Offers

/-!
# Branches and their conditions

An OR of ANDs none of which is empty (`Node.FilledOrOfAnd`) stays one, whatever is done to the
branches, to their conditions and below them, as long as no edit replaces the root or a branch
(`Node.FilledOrOfAnd.reduce`).

The invariant speaks of the root, its operands, and whether these have operands. So a node that is
replaced two levels or more below the root cannot break it, a branch must be replaced by one that is
not empty, and an edit of the root itself has to be looked at on its own. Only the removal of a
condition does both: it may leave a branch empty, which then goes too.
-/

namespace RuleEditor

/-! ## The invariant -/

/-- The layout is that of an OR of ANDs, and no branch is empty. -/
def Layout.IsFilled (layout : Layout) : Prop :=
  ∃ branches, layout = .rootOrOfAnd branches ∧ ∀ branch ∈ branches, branch.conditions ≠ []

namespace Node

/-- The node is an AND with at least one condition. -/
structure IsBranch (node : Node) : Prop where
  and : node.applies Name.and = true
  filled : node.children ≠ []

/-- The tree is an OR of ANDs with at least one condition each. -/
structure FilledOrOfAnd (root : Node) : Prop where
  or : root.applies Name.or = true
  branches : ∀ branch ∈ root.children, branch.IsBranch

variable {root node new updated : Node} {path : Path} {index condition next rest : Nat}

theorem FilledOrOfAnd.shape (filled : root.FilledOrOfAnd) : root.isOrOfAnd = true := by
  rw [isOrOfAnd, filled.or, Bool.true_and, List.all_eq_true]
  exact fun branch mem => (filled.branches branch mem).and

theorem forall_mem_branches_iff {children : List Node} :
    (∀ branch ∈ branches path index children, branch.conditions ≠ []) ↔
      ∀ child ∈ children, child.children ≠ [] := by
  induction children generalizing index with
  | nil => exact iff_of_true nofun nofun
  | cons child rest ih =>
    rw [branches, List.forall_mem_cons, List.forall_mem_cons, ih]
    simp [childPaths]

/-- **The invariant is what the layout says.** -/
theorem isFilled_layout_iff : (root.layout Path.root).IsFilled ↔ root.FilledOrOfAnd := by
  by_cases shape : root.isOrOfAnd = true
  · have layout : root.layout Path.root = .rootOrOfAnd (branches Path.root 0 root.children) := by
      rw [Node.layout, shape]
      rfl
    have each := @forall_mem_branches_iff Path.root 0 root.children
    rw [isOrOfAnd, Bool.and_eq_true, List.all_eq_true] at shape
    rw [layout]
    constructor
    · rintro ⟨_, ⟨⟩, filled⟩
      exact ⟨shape.1, fun branch mem => ⟨shape.2 branch mem, each.1 filled branch mem⟩⟩
    · intro filled
      exact ⟨_, rfl, each.2 fun branch mem => (filled.branches branch mem).filled⟩
  · refine iff_of_false ?_ fun filled => shape filled.shape
    rintro ⟨branches, layout, -⟩
    rw [Node.layout, Bool.eq_false_iff.2 shape, Bool.and_false, if_neg Bool.false_ne_true] at layout
    split at layout
    · cases layout
    · split at layout
      · cases layout
      · split at layout <;> cases layout

/-! ## Replacing a node below the root -/

theorem applies_setStep {name : String} {operand : Node} {segment : Segment} :
    (node.setStep operand segment).applies name = node.applies name := by
  cases segment <;> rfl

theorem IsBranch.setStep {operand : Node} {segment : Segment} (branch : node.IsBranch) :
    (node.setStep operand segment).IsBranch := by
  refine ⟨applies_setStep.trans branch.and, ?_⟩
  cases segment with
  | child index =>
    intro empty
    exact branch.filled ((List.set_eq_nil_iff _ _).1 empty)
  | named key => exact branch.filled

theorem IsBranch.push (branch : node.IsBranch) (operand : Node) : (node.push operand).IsBranch :=
  ⟨branch.and, List.append_ne_nil_of_left_ne_nil branch.filled _⟩

/-- A replacement below a node changes one of its operands only. -/
theorem exists_setStep (below : path ≠ []) (put : node.put? new path = some updated) :
    ∃ operand segment, updated = node.setStep operand segment := by
  cases path with
  | nil => exact absurd rfl below
  | cons segment path =>
    obtain ⟨_, -, put⟩ := Option.bind_eq_some_iff.1 put
    obtain ⟨operand, -, same⟩ := Option.bind_eq_some_iff.1 put
    exact ⟨operand, segment, (Option.some.inj same).symm⟩

/-- Branches may be replaced by branches. -/
theorem FilledOrOfAnd.setStep (filled : root.FilledOrOfAnd) (branch : new.IsBranch) (index : Nat) :
    (root.setStep new (.child index)).FilledOrOfAnd := by
  refine ⟨filled.or, fun other mem => ?_⟩
  rcases List.mem_or_eq_of_mem_set mem with before | rfl
  · exact filled.branches other before
  · exact branch

theorem FilledOrOfAnd.push (filled : root.FilledOrOfAnd) (branch : new.IsBranch) :
    (root.push new).FilledOrOfAnd :=
  ⟨filled.or, List.forall_mem_append.2 ⟨filled.branches, List.forall_mem_singleton.2 branch⟩⟩

theorem FilledOrOfAnd.isBranch (filled : root.FilledOrOfAnd)
    (found : root.child? index = some node) : node.IsBranch :=
  filled.branches node (List.mem_of_getElem? found)

/-- **Below the root anything may be replaced**, but a branch only by a branch. -/
theorem FilledOrOfAnd.put? (filled : root.FilledOrOfAnd) (below : path ≠ [])
    (branch : ∀ index, path = [.child index] → new.IsBranch)
    (put : root.put? new path = some updated) : updated.FilledOrOfAnd := by
  cases path with
  | nil => exact absurd rfl below
  | cons segment path =>
    obtain ⟨operand, step, put⟩ := Option.bind_eq_some_iff.1 put
    obtain ⟨replaced, inner, same⟩ := Option.bind_eq_some_iff.1 put
    cases same
    cases segment with
    | named key => exact ⟨filled.or, filled.branches⟩
    | child index =>
      refine filled.setStep ?_ index
      by_cases last : path = []
      · subst last
        cases inner
        exact branch index rfl
      · obtain ⟨_, segment, rfl⟩ := exists_setStep last inner
        exact (filled.isBranch step).setStep

/-! ## Taking out a condition -/

/-- The node without one of its positional operands. -/
def withoutOperand (node : Node) (index : Nat) : Node :=
  { node with children := node.children.eraseIdx index }

/-- An OR of ANDs without one of the conditions of a branch, and without the branch if that was its
last. All other branches stay the same nodes, in the same order. -/
def withoutCondition (root : Node) (index condition : Nat) (branch : Node) : Node :=
  if branch.children.length = 1 then root.withoutOperand index
  else root.setStep (branch.withoutOperand condition) (.child index)

theorem FilledOrOfAnd.withoutOperand (filled : root.FilledOrOfAnd) (index : Nat) :
    (root.withoutOperand index).FilledOrOfAnd :=
  ⟨filled.or, fun branch mem => filled.branches branch (List.mem_of_mem_eraseIdx mem)⟩

theorem length_withoutOperand (bound : condition < node.children.length) :
    (node.withoutOperand condition).children.length = node.children.length - 1 :=
  List.length_eraseIdx_of_lt bound

theorem withoutOperand_setStep :
    (root.setStep new (.child index)).withoutOperand index = root.withoutOperand index := by
  simp [withoutOperand, Node.setStep, List.eraseIdx_set_eq]

theorem IsBranch.withoutOperand (branch : node.IsBranch) (bound : condition < node.children.length)
    (several : node.children.length ≠ 1) : (node.withoutOperand condition).IsBranch := by
  refine ⟨branch.and, fun empty => ?_⟩
  have size := length_withoutOperand bound
  rw [empty, List.length_nil] at size
  omega

theorem FilledOrOfAnd.withoutCondition {branch : Node} (filled : root.FilledOrOfAnd)
    (found : root.child? index = some branch) (bound : condition < branch.children.length) :
    (root.withoutCondition index condition branch).FilledOrOfAnd := by
  rw [Node.withoutCondition]
  split
  · exact filled.withoutOperand index
  · next several =>
    exact filled.setStep ((filled.isBranch found).withoutOperand bound several) index

theorem applies_and_of_isOrOfAnd {branch : Node} (shape : root.isOrOfAnd = true)
    (found : root.child? index = some branch) : branch.applies Name.and = true := by
  rw [isOrOfAnd, Bool.and_eq_true, List.all_eq_true] at shape
  exact shape.2 branch (List.mem_of_getElem? found)

/-- The first of two steps: the branch loses the condition, even if it is the last one. -/
theorem removed_of_isOrOfAnd {branch : Node} (shape : root.isOrOfAnd = true)
    (found : root.child? index = some branch) (bound : condition < branch.children.length) :
    Removed root next [.child index, .child condition]
      (root.setStep (branch.withoutOperand condition) (.child index)) next := by
  have here : root.at? [.child index] = some branch := (at?_child ..).trans found
  have variadic : branch.isVariadic = true :=
    (isVariadic_of_isOrOfAnd shape).2 branch (List.mem_of_getElem? found)
  have put : root.put? (branch.withoutOperand condition) [.child index] =
      some (root.setStep (branch.withoutOperand condition) (.child index)) := by
    simp [Node.put?, step?, found]
  have removed : Removed root next ([.child index] ++ [.child condition]) _ next :=
    .erased here bound variadic put
  exact removed

theorem isOrOfAnd_setStep (shape : root.isOrOfAnd = true) (and : new.applies Name.and = true)
    (index : Nat) : (root.setStep new (.child index)).isOrOfAnd = true := by
  rw [isOrOfAnd, Bool.and_eq_true, List.all_eq_true] at shape ⊢
  refine ⟨shape.1, fun branch mem => ?_⟩
  rcases List.mem_or_eq_of_mem_set mem with before | rfl
  · exact shape.2 branch before
  · exact and

/-- **Taking out a condition** leaves all other branches as they are; the branch goes with its last
condition. -/
theorem removeCondition_eq {branch : Node} (shape : root.isOrOfAnd = true)
    (found : root.child? index = some branch) (bound : condition < branch.children.length) :
    root.removeCondition [.child index, .child condition] next =
      .ok (root.withoutCondition index condition branch, next) := by
  refine StateT.bind_eq_ok.2 ⟨_, next, (removed_of_isOrOfAnd shape found bound).remove_eq_ok, ?_⟩
  have before := applies_and_of_isOrOfAnd shape found
  have and : (branch.withoutOperand condition).applies Name.and = true := before
  have kept := isOrOfAnd_setStep shape and index
  have child : (root.setStep (branch.withoutOperand condition) (.child index)).child? index =
      some (branch.withoutOperand condition) :=
    List.getElem?_set_self (List.getElem?_eq_some_iff.1 found).1
  have size := length_withoutOperand bound
  simp only [shape, kept, child, Bool.true_and, Option.any_some]
  rw [Node.withoutCondition]
  by_cases last : branch.children.length = 1
  · have empty : (branch.withoutOperand condition).children = [] :=
      List.eq_nil_of_length_eq_zero (by omega)
    have within := (List.getElem?_eq_some_iff.1 child).1
    have gone : Removed (root.setStep (branch.withoutOperand condition) (.child index)) next
        ([] ++ [.child index])
        ((root.setStep (branch.withoutOperand condition) (.child index)).withoutOperand index)
        next :=
      .erased rfl within (isVariadic_of_isOrOfAnd kept).1 rfl
    rw [withoutOperand_setStep] at gone
    rw [empty, if_pos last]
    exact gone.remove_eq_ok
  · have left : (branch.withoutOperand condition).children.isEmpty = false := by
      rw [List.isEmpty_eq_false_iff, ← List.length_pos_iff]
      omega
    rw [left, if_neg last]
    rfl

theorem FilledOrOfAnd.removeCondition_eq {branch : Node} (filled : root.FilledOrOfAnd)
    (found : root.child? index = some branch) (bound : condition < branch.children.length) :
    root.removeCondition [.child index, .child condition] next =
      .ok (root.withoutCondition index condition branch, next) :=
  Node.removeCondition_eq filled.shape found bound

/-- Only a condition has a branch as its parent, so that the parent of anything else may be
replaced. -/
theorem FilledOrOfAnd.put?_above (filled : root.FilledOrOfAnd) (top : path ≠ [])
    (other : ∀ branch condition, path ++ [.child index] ≠ [.child branch, .child condition])
    (put : root.put? new path = some updated) : updated.FilledOrOfAnd := by
  refine filled.put? top (fun branch same => ?_) put
  subst same
  exact absurd rfl (other branch index)

/-- Taking out anything below the root keeps the branches filled, unless it is a condition. -/
theorem Removed.filledOrOfAnd (removed : Removed root next path updated rest)
    (filled : root.FilledOrOfAnd) (below : path ≠ [])
    (other : ∀ branch condition, path ≠ [.child branch, .child condition]) :
    updated.FilledOrOfAnd := by
  cases removed with
  | root => exact absurd rfl below
  | @erased above index _ _ found bound variadic put =>
    by_cases top : above = []
    · subst top
      cases found
      cases put
      exact filled.withoutOperand index
    · exact filled.put?_above top other put
  | @blanked above _ _ _ found bound fixed put =>
    by_cases top : above = []
    · subst top
      cases found
      rw [(isVariadic_of_isOrOfAnd filled.shape).1] at fixed
      cases fixed
    · exact filled.put?_above top other put
  | slot put =>
    refine filled.put? below (fun branch same => ?_) put
    simp [List.append_eq_singleton_iff] at same

theorem FilledOrOfAnd.removeCondition (filled : root.FilledOrOfAnd) (below : path ≠ [])
    (done : root.removeCondition path next = .ok (updated, rest)) : updated.FilledOrOfAnd := by
  by_cases shape : ∃ index condition, path = [.child index, .child condition]
  · obtain ⟨index, condition, rfl⟩ := shape
    obtain ⟨node, found⟩ := exists_removeCondition_iff.1 ⟨_, done⟩
    obtain ⟨branch, here, found⟩ :=
      Option.bind_eq_some_iff.1 ((at?_concat root [.child index] _).symm.trans found)
    rw [at?_child] at here
    have bound : condition < branch.children.length := (List.getElem?_eq_some_iff.1 found).1
    cases (filled.removeCondition_eq here bound).symm.trans done
    exact filled.withoutCondition here bound
  · cases removeCondition_spec done with
    | kept removed =>
      exact removed.filledOrOfAnd filled below fun index condition same =>
        shape ⟨index, condition, same⟩
    | emptied same => exact absurd ⟨_, _, same⟩ shape

/-! ## Edits -/

theorem FilledOrOfAnd.put?_of_deep (filled : root.FilledOrOfAnd) (deep : 2 ≤ path.length)
    (put : root.put? new path = some updated) : updated.FilledOrOfAnd := by
  refine filled.put? ?_ (fun index same => ?_) put
  · rintro rfl
    cases deep
  · subst same
    exact absurd deep (Nat.lt_irrefl 1)

/-- An operator that is not binary is not that of a line. -/
theorem not_isBinaryLine_of_applies {name : String} (applies : node.applies name = true)
    (other : Name.isBinary name = false) : node.isBinaryLine ≠ true := by
  intro line
  have named : node.name = .function name := of_decide_eq_true applies
  have function : node.function? = some name := by
    rw [function?, named]
  rw [isBinary_of_isBinaryLine line function] at other
  cases other

/-- Neither the root nor a branch is a line. -/
theorem FilledOrOfAnd.put?_of_line (filled : root.FilledOrOfAnd)
    (found : root.at? path = some node) (line : node.isBinaryLine = true)
    (put : root.put? new path = some updated) : updated.FilledOrOfAnd := by
  refine filled.put? (fun top => ?_) (fun index same => ?_) put
  · subst top
    cases found
    exact absurd line (not_isBinaryLine_of_applies filled.or (by decide))
  · subst same
    have branch := filled.isBranch ((at?_child ..).symm.trans found)
    exact absurd line (not_isBinaryLine_of_applies branch.and (by decide))

end Node

/-- The edit puts nothing that it brings along in the place of the root or of a branch, and does not
take out the root. -/
def Intent.KeepsBranches : Intent → Prop
  | .setOperand path _ => 2 ≤ path.length
  | .setOperator path _ => 2 ≤ path.length
  | .commitAggregation path _ => 2 ≤ path.length
  | .appendChild path _ => path ≠ []
  | .remove path => path ≠ []
  | .nest _ => True
  | .unnest _ => True
  | .addOrBranch => True
  | .addAndCondition _ => True

namespace Node

variable {root updated : Node} {next rest : Nat}

/-- **An edit keeps the branches filled**, wherever it is addressed. -/
theorem FilledOrOfAnd.reduce {intent : Intent} (filled : root.FilledOrOfAnd)
    (keeps : intent.KeepsBranches) (done : root.reduce intent next = .ok (updated, rest)) :
    updated.FilledOrOfAnd := by
  cases reduce_spec done with
  | setOperand put => exact filled.put?_of_deep keeps put
  | setOperator found function rename put => exact filled.put?_of_deep keeps put
  | commitAggregation valid build put => exact filled.put?_of_deep keeps put
  | appendChild found variadic put =>
    refine filled.put? keeps (fun index same => ?_) put
    subst same
    exact (filled.isBranch ((at?_child ..).symm.trans found)).push _
  | removed shape =>
    rw [filled.shape] at shape
    cases shape
  | pruned =>
    rw [Node.reduce, if_pos filled.shape] at done
    exact filled.removeCondition keeps (Edit.stale_eq_ok.1 done)
  | nest found nest put =>
    exact filled.put?_of_line found (exists_nest?_iff.1 ⟨_, congrArg Prod.fst nest⟩) put
  | unnest found unnest put =>
    exact filled.put?_of_line found (exists_unnest?_iff.1 ⟨_, unnest⟩).1 put
  | addOrBranch added =>
    rw [addOrBranch?, if_pos filled.shape] at added
    cases added
    exact filled.push ⟨rfl, List.cons_ne_nil _ _⟩
  | @addAndCondition index _ _ added =>
    rw [addAndCondition?, filled.shape] at added
    cases found : root.child? index with
    | none =>
      rw [found] at added
      cases added
    | some branch =>
      rw [found] at added
      cases added
      exact filled.setStep ((filled.isBranch found).push _) index

end Node

/-! ## Runs -/

/-- An edit that keeps the branches, or a tree whose branches are filled. -/
def Operation.KeepsBranches : Operation → Prop
  | .apply intent _ => intent.KeepsBranches
  | .load root => root.FilledOrOfAnd
  | _ => True

namespace Run

/-- **Branches stay filled.** If a run starts with an OR of ANDs none of which is empty, and no edit
replaces the root or a branch, every tree that it reaches is shown as one. Taking out a condition
always succeeds then. It leaves all other branches as they are, in their order; the branch goes with
its last condition. -/
theorem filledBranches_of_run (run : Run) (operations : List Operation)
    (filled : run.editor.layout.IsFilled)
    (keeps : ∀ operation ∈ operations, operation.KeepsBranches) :
    let editor := (run.steps operations).editor
    editor.layout.IsFilled ∧
    (editor.config.mode = .edit → ∀ index condition branch supply,
      editor.root.child? index = some branch → condition < branch.children.length →
        editor.apply (.remove [.child index, .child condition]) supply =
          .ok (editor.advance (editor.root.withoutCondition index condition branch), supply)) := by
  intro editor
  have reached : editor.root.FilledOrOfAnd :=
    steps_keep (P := Node.FilledOrOfAnd) (fun filled keeps done => filled.reduce keeps done) id
      (Node.isFilled_layout_iff.1 filled) keeps
  refine ⟨Node.isFilled_layout_iff.2 reached, ?_⟩
  intro editing index condition branch supply found bound
  refine Editor.apply_of_reduce editing ?_
  rw [Node.reduce, if_pos reached.shape]
  exact Edit.stale_eq_ok.2 (reached.removeCondition_eq found bound)

/-- A condition is added to the second branch, the first one is emptied, a branch is added, and a
condition is replaced and grouped. Each of the six edits succeeds. The only condition of the new
branch can be taken out. -/
theorem filledBranches_of_run_of_two_branches :
    let field : Node := ⟨0, .constant, some (.string "amount"), [], []⟩
    let line (id : Nat) : Node := ⟨id, .function Name.greater, none, [field, field], []⟩
    let branch (id : Nat) (conditions : List Node) : Node :=
      ⟨id, .function Name.and, none, conditions, []⟩
    let root : Node := ⟨1, .function Name.or, none,
      [branch 2 [line 3, line 4], branch 5 [line 6]], []⟩
    let operations : List Operation :=
      [.apply (.addAndCondition 1) 10, .apply (.remove [.child 0, .child 1]) 20,
        .apply (.remove [.child 0, .child 0]) 30, .apply .addOrBranch 40,
        .apply (.setOperand [.child 0, .child 1] (line 50)) 60,
        .apply (.nest [.child 0, .child 1]) 70]
    (Run.start root .default).editor.layout.IsFilled ∧
      (∀ operation ∈ operations, operation.KeepsBranches) ∧
      ((Run.start root .default).steps operations).trees.length = 7 ∧
      ∃ editor branch, editor = ((Run.start root .default).steps operations).editor ∧
        editor.layout.IsFilled ∧ editor.root.child? 1 = some branch ∧ branch.children.length = 1 ∧
          editor.apply (.remove [.child 1, .child 0]) 80 =
            .ok (editor.advance (editor.root.withoutCondition 1 0 branch), 80) := by
  intro field line branch root operations
  have filled : root.FilledOrOfAnd := by
    have isBranch (id : Nat) (condition : Node) (rest : List Node) :
        (branch id (condition :: rest)).IsBranch := ⟨rfl, List.cons_ne_nil _ _⟩
    refine ⟨rfl, ?_⟩
    exact List.forall_mem_cons.2 ⟨isBranch .., List.forall_mem_singleton.2 (isBranch ..)⟩
  have keeps : ∀ operation ∈ operations, operation.KeepsBranches := by
    simp [operations, Operation.KeepsBranches, Intent.KeepsBranches]
  have runs := filledBranches_of_run (Run.start root .default) operations
    (Node.isFilled_layout_iff.2 filled) keeps
  have last : (((Run.start root .default).steps operations).editor.root.child? 1).any
      (·.children.length = 1) = true := by decide +kernel
  obtain ⟨final, found, one⟩ := (Option.any_eq_true _ _).1 last
  have one : final.children.length = 1 := of_decide_eq_true one
  have bound : 0 < final.children.length := by omega
  have removal := runs.2 (by decide +kernel) 1 0 final 80 found bound
  exact ⟨Node.isFilled_layout_iff.2 filled, keeps, by decide +kernel, _, final, rfl, runs.1, found,
    one, removal⟩

end Run

end RuleEditor
