import Mathlib.Data.List.Perm.Basic
import RuleEditor.Proofs.Editor.Distinct
import RuleEditor.Proofs.Validation.Places
import RuleEditor.Proofs.View

/-!
# Which errors are shown

The errors of a tree are put together in three ways: at one path, as a table of all paths, and in
the view of the tree.

**Tables.** The table of all errors has at each path what is asked for at this path
(`ValidationState.errorsAt_mergedErrors`). A table that has errors at the paths of a list only, each
of which stands there once, lists the same errors as the paths do (`PathErrors.listed_perm`).

**The view** (`Run.shown_errors`). All errors are at paths that lead to nodes, and the walk of the
tree lists each of these paths once. So the view shows each local and each visible error once, in
the order of the walk. When the tree is validated, what is visible is what was reported, so the view
is without errors exactly when the tree may be saved.
-/

namespace RuleEditor

/-! ## Tables -/

namespace PathErrors

variable {errors : PathErrors} {path : Path}

/-- The errors of a table with their paths. -/
def listed (errors : PathErrors) : List (Path × EvaluationError) :=
  errors.entries.flatMap fun entry => entry.2.map (entry.1, ·)

theorem mem_keys_of_errorsAt (present : errors.errorsAt path ≠ []) : path ∈ errors.keys := by
  cases found : errors.get? path with
  | none =>
    rw [errorsAt, found] at present
    exact absurd rfl present
  | some list => exact Keyed.mem_keys_iff.2 ⟨list, found⟩

theorem listed_eq (errors : PathErrors) :
    errors.listed = errors.keys.flatMap fun path => (errors.errorsAt path).map (path, ·) := by
  rw [listed, Keyed.keys, List.flatMap_map]
  exact List.flatMap_congr fun entry mem => by rw [errorsAt_of_mem mem]

/-- Paths without errors list nothing. -/
theorem flatMap_filter_errorsAt (errors : PathErrors) (paths : List Path) :
    (paths.filter fun path => errors.errorsAt path ≠ []).flatMap
        (fun path => (errors.errorsAt path).map (path, ·)) =
      paths.flatMap fun path => (errors.errorsAt path).map (path, ·) := by
  induction paths with
  | nil => rfl
  | cons path rest ih =>
    by_cases none : errors.errorsAt path = []
    · rw [List.filter_cons_of_neg (by simp [none]), List.flatMap_cons, ih, none]
      rfl
    · rw [List.filter_cons_of_pos (by simp [none]), List.flatMap_cons, List.flatMap_cons, ih]

/-- Paths without repetition that include all paths with errors list the errors of the table. -/
theorem listed_perm {paths : List Path} (nodup : paths.Nodup)
    (covered : ∀ path, errors.errorsAt path ≠ [] → path ∈ paths) :
    (paths.flatMap fun path => (errors.errorsAt path).map (path, ·)).Perm errors.listed := by
  rw [listed_eq, ← flatMap_filter_errorsAt, ← flatMap_filter_errorsAt errors errors.keys]
  have distinct : errors.keys.Nodup := errors.distinct
  refine List.Perm.flatMap_right _ ?_
  refine (List.perm_ext_iff_of_nodup (nodup.filter _) (distinct.filter _)).2 fun path => ?_
  rw [List.mem_filter, List.mem_filter]
  refine and_congr_left fun shown => ?_
  have present : errors.errorsAt path ≠ [] := of_decide_eq_true shown
  exact iff_of_true (covered path present) (mem_keys_of_errorsAt present)

theorem listed_eq_nil_iff : errors.listed = [] ↔ errors.Clean := by
  rw [listed, List.flatMap_eq_nil_iff, clean_iff, Keyed.values, List.forall_mem_map]
  simp only [List.map_eq_nil_iff]

/-- Appending the errors of a list of paths, none of which is repeated. -/
theorem errorsAt_foldl_append {entries : List (Path × List EvaluationError)}
    (distinct : (entries.map Prod.fst).Nodup) (errors : PathErrors) (path : Path) :
    (entries.foldl (fun errors (path, more) => errors.append path more) errors).errorsAt path =
      errors.errorsAt path ++ (Entries.get? path entries).getD [] := by
  induction entries generalizing errors with
  | nil => exact (List.append_nil _).symm
  | cons entry rest ih =>
    obtain ⟨other, more⟩ := entry
    rw [List.map_cons, List.nodup_cons] at distinct
    rw [List.foldl_cons, ih distinct.2, errorsAt_append, Entries.get?]
    by_cases same : other = path
    · have unrepeated : Entries.get? path rest = none := by
        cases found : Entries.get? path rest with
        | none => rfl
        | some list =>
          have again := List.mem_map_of_mem (f := Prod.fst) (Entries.mem_of_get? found)
          exact absurd (same ▸ again) distinct.1
      rw [if_pos same, if_pos same, unrepeated]
      exact List.append_nil _
    · rw [if_neg same, if_neg same, List.append_nil]

end PathErrors

/-- A tree is validated if the merged answer is about its revision. -/
theorem ValidationState.status_eq_validated_iff {state : ValidationState} :
    state.status = .validated ↔ state.serverRevision = some state.current := by
  rw [status]
  split
  · next merged => exact iff_of_true rfl merged
  · next unmerged =>
    refine iff_of_false ?_ unmerged
    split
    · exact nofun
    · split
      · exact nofun
      · split <;> exact nofun

/-- **The table of all errors has at each path the local errors and then the visible ones.** -/
theorem ValidationState.errorsAt_mergedErrors (state : ValidationState) (path : Path) :
    state.mergedErrors.errorsAt path = state.errorsAt path :=
  PathErrors.errorsAt_foldl_append state.visible.errors.distinct state.localErrors path

/-! ## The view -/

namespace Editor

/-- Where a path leads to a node, it leads to the view of this node with the errors of the path. -/
theorem at?_view (editor : Editor) {path : Path} {node : Node}
    (there : editor.root.at? path = some node) :
    ∃ view, editor.view.at? path = some view ∧ view.node = node ∧ view.path = path ∧
      view.errors = editor.validation.mergedErrors.errorsAt path := by
  let shown := ViewNode.build editor.validation.mergedErrors editor.validation.evaluations path node
  have found : editor.view.at? path = some shown := by
    rw [view, ViewNode.at?_ofTree, there]
    rfl
  refine ⟨shown, found, ?_⟩
  cases node
  exact ⟨rfl, rfl, rfl⟩

theorem errorsBelow_view (editor : Editor) :
    editor.view.errorsBelow =
      editor.root.walk.flatMap fun entry =>
        (editor.validation.errorsAt entry.1).map (entry.1, ·) := by
  rw [view, ViewNode.ofTree, ViewNode.errorsBelow_build]
  simp only [ValidationState.errorsAt_mergedErrors]
  rfl

end Editor

/-- What is seen at a path is what was reported there, or nothing. -/
theorem Merged.errorsAt_visibleIn (merged : Merged) (root : Node) (path : Path) :
    (merged.visibleIn root).errors.errorsAt path =
      if merged.holds root path then merged.annotations.errors.errorsAt path else [] := by
  rw [PathErrors.errorsAt, visibleIn, Keyed.get?_filter, PathErrors.errorsAt]
  cases merged.holds root path <;> cases merged.annotations.errors.get? path <;> rfl

namespace Run

variable {run : Run} {path : Path}

theorem Sound.exists_at?_of_localErrors (sound : Sound run)
    (distinct : run.editor.root.DistinctKeys)
    (present : run.editor.validation.localErrors.errorsAt path ≠ []) :
    ∃ node, run.editor.root.at? path = some node := by
  obtain ⟨error, mem⟩ := List.exists_mem_of_ne_nil _ present
  rw [sound.localErrors, Node.mem_errorsAt_validateLocal] at mem
  exact Node.exists_at?_of_mem_findings ((Node.distinctKeys_iff _).1 distinct) mem

theorem Sound.exists_at?_of_visible (sound : Sound run)
    (present : run.editor.validation.visible.errors.errorsAt path ≠ []) :
    ∃ node, run.editor.root.at? path = some node := by
  rw [sound.visible, ValidationState.refresh, sound.root] at present
  cases server : run.editor.validation.server with
  | none =>
    simp only [server] at present
    exact absurd rfl present
  | some merged =>
    simp only [server] at present
    exact Merged.exists_at?_of_visible present

/-- The view shows every local error and every visible one. -/
theorem Sound.errorsBelow_perm (sound : Sound run) (distinct : run.editor.root.DistinctKeys) :
    run.editor.view.errorsBelow.Perm
      (run.editor.validation.localErrors.listed ++
        run.editor.validation.visible.errors.listed) := by
  have slots := (Node.distinctKeys_iff run.editor.root).1 distinct
  have nodup := Node.nodup_walk slots
  have listed {path : Path} (there : ∃ node, run.editor.root.at? path = some node) :
      path ∈ run.editor.root.walk.map Prod.fst := by
    obtain ⟨node, there⟩ := there
    exact List.mem_map_of_mem (f := Prod.fst) ((Node.mem_walk_iff slots).2 there)
  have byPath : run.editor.view.errorsBelow =
      (run.editor.root.walk.map Prod.fst).flatMap fun path =>
        (run.editor.validation.localErrors.errorsAt path).map (path, ·) ++
          (run.editor.validation.visible.errors.errorsAt path).map (path, ·) := by
    rw [Editor.errorsBelow_view, List.flatMap_map]
    simp only [ValidationState.errorsAt, List.map_append]
  rw [byPath]
  refine (List.flatMap_append_perm _ _ _).symm.trans (List.Perm.append ?_ ?_)
  · exact PathErrors.listed_perm nodup fun path present =>
      listed (sound.exists_at?_of_localErrors distinct present)
  · exact PathErrors.listed_perm nodup fun path present =>
      listed (sound.exists_at?_of_visible present)

/-- In a validated tree, what was reported at a node of the tree is visible. -/
theorem Sound.clean_visible_iff (sound : Sound run) {merged : Merged}
    (there : run.editor.validation.server = some merged)
    (now : merged.revision = run.editor.revision)
    (resolve : ∀ path, merged.annotations.errors.errorsAt path ≠ [] →
      ∃ node, run.editor.root.at? path = some node) :
    run.editor.validation.visible.errors.Clean ↔ merged.annotations.errors.Clean := by
  obtain ⟨response, -, eq⟩ := sound.server_of_revision there now
  have visible : run.editor.validation.visible = merged.visibleIn run.editor.root := by
    rw [sound.visible, ValidationState.refresh, there, sound.root]
  rw [visible]
  constructor
  · intro clean path
    by_contra present
    have annotated := PathErrors.mem_keys_of_errorsAt present
    obtain ⟨node, here⟩ := resolve path present
    -- The answer is for this very tree, so each path is anchored at the node it leads to now.
    have holds : merged.holds run.editor.root path = true := by
      rw [eq]
      rw [eq] at annotated
      exact (Merged.holds_ofAnnotations_iff (List.mem_append_left _ annotated)).2
        ⟨node, node, here, here, rfl⟩
    have shown := clean path
    rw [Merged.errorsAt_visibleIn, if_pos holds] at shown
    exact present shown
  · intro clean path
    rw [Merged.errorsAt_visibleIn, clean path]
    split <;> rfl

/-- **Which errors are shown.** In every state of every run: where a path leads to a node of the
tree, the view of this node has the errors of the path, which are those that the table of all errors
has there, the local errors first and then the visible ones. The errors of the view are those of the
paths of the walk, in its order; they are the local errors and the visible ones, each of them once.
When the tree is validated, and every path at which the merged response reports errors leads to a
node, no errors are shown exactly if the tree may be saved. -/
theorem shown_errors (root : Node) (config : EditorConfig) (operations : List Operation)
    (distinct : root.DistinctKeys) (handed : ∀ operation ∈ operations, operation.DistinctKeys) :
    let editor := (Run.of root config operations).editor
    let validation := editor.validation
    (∀ path node, editor.root.at? path = some node →
      ∃ view, editor.view.at? path = some view ∧ view.node = node ∧ view.path = path ∧
        view.errors = validation.errorsAt path ∧
        view.errors = validation.mergedErrors.errorsAt path ∧
        view.errors =
          validation.localErrors.errorsAt path ++ validation.visible.errors.errorsAt path) ∧
    editor.view.errorsBelow = (editor.root.walk.flatMap fun entry =>
      (validation.errorsAt entry.1).map (entry.1, ·)) ∧
    editor.view.errorsBelow.Perm
      (validation.localErrors.listed ++ validation.visible.errors.listed) ∧
    (editor.status = .validated →
      (∀ merged, validation.server = some merged →
        ∀ path, merged.annotations.errors.errorsAt path ≠ [] →
          ∃ node, editor.root.at? path = some node) →
        (editor.view.errorsBelow = [] ↔ editor.canSave = true)) := by
  intro editor validation
  have sound : Sound (Run.of root config operations) := .of root config operations
  have reached : editor.root.DistinctKeys := distinctKeys_of_run distinct handed
  have shown := sound.errorsBelow_perm reached
  refine ⟨fun path node there => ?_, editor.errorsBelow_view, shown, fun validated resolve => ?_⟩
  · obtain ⟨view, found, node, path, errors⟩ := editor.at?_view there
    have asked := errors.trans (validation.errorsAt_mergedErrors _)
    exact ⟨view, found, node, path, asked, errors, asked⟩
  · obtain ⟨merged, there, now⟩ :=
      Option.map_eq_some_iff.1 (ValidationState.status_eq_validated_iff.1 validated)
    have seen : validation.visible.errors.Clean ↔ merged.annotations.errorCount = 0 :=
      (sound.clean_visible_iff there (now.trans sound.current) (resolve merged there)).trans
        PathErrors.count_eq_zero_iff.symm
    have listedNone : editor.view.errorsBelow = [] ↔
        validation.localErrors.Clean ∧ validation.visible.errors.Clean := by
      rw [← PathErrors.listed_eq_nil_iff, ← PathErrors.listed_eq_nil_iff, ← List.append_eq_nil_iff]
      exact ⟨fun none => (none ▸ shown).nil_eq.symm, fun none => (none ▸ shown).eq_nil⟩
    rw [listedNone, seen, Editor.canSave, canSave_eq_true_iff]
    refine and_congr_right fun _ => ⟨fun clean => ⟨merged, there, now, clean⟩, ?_⟩
    rintro ⟨other, there', -, clean⟩
    cases there.symm.trans there'
    exact clean

/-- One operand is not chosen, and the server rejects the other one. Both errors are shown, in the
order of the operands, and the tree may not be saved. -/
theorem shown_errors_of_rejected_line :
    let blank : Node := ⟨1, .undefined, none, [], []⟩
    let limit : Node := ⟨2, .constant, some (.int 1000), [], []⟩
    let line : Node := ⟨0, .function Name.greater, none, [blank, limit], []⟩
    let rejected : EvaluationError := .ofCode .argumentInvalidType
    let response : Response := ⟨[⟨"root.children.1", rejected⟩], []⟩
    let operations : List Operation := [.beginValidation, .acceptValidation 0 response]
    let editor := (Run.of line .default operations).editor
    line.DistinctKeys ∧ (∀ operation ∈ operations, operation.DistinctKeys) ∧
      editor.status = .validated ∧
      editor.view.errorsBelow =
        [([.child 0], { EvaluationError.ofCode .argumentRequired with argumentIndex := some 0 }),
          ([.child 1], rejected)] ∧
      (editor.view.errorsBelow = [] ↔ editor.canSave = true) := by
  intro blank limit line rejected response operations editor
  have distinct : line.DistinctKeys := by simp [line, blank, limit, Node.DistinctKeys,
    Node.DistinctKeysAll, Node.DistinctKeysNamed]
  have handed : ∀ operation ∈ operations, operation.DistinctKeys := by
    simp [operations, Operation.DistinctKeys]
  have validated : editor.status = .validated := by decide +kernel
  have reported : editor.validation.server.map (·.annotations.errors.keys) = some [[.child 1]] := by
    decide +kernel
  have resolve : ∀ merged, editor.validation.server = some merged →
      ∀ path, merged.annotations.errors.errorsAt path ≠ [] →
        ∃ node, editor.root.at? path = some node := by
    intro merged there path present
    rw [there, Option.map_some, Option.some.injEq] at reported
    have here := PathErrors.mem_keys_of_errorsAt present
    rw [reported, List.mem_singleton] at here
    exact ⟨limit, here ▸ rfl⟩
  exact ⟨distinct, handed, validated, by decide +kernel,
    (shown_errors line .default operations distinct handed).2.2.2 validated resolve⟩

end Run

end RuleEditor
