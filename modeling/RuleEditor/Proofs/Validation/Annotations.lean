import Mathlib.Data.List.Induction
import RuleEditor.Validation.State

/-!
# What annotations say, and where they are seen

**Errors.** A table of errors is *clean* when it has no error at any path. The annotations of a
response are clean exactly when none of its errors has a path that can be read: an error that is
left out because it is known already stands beside the one that is known.

**Anchors.** A merged answer is seen at a path exactly while the node there is the node that was
there in the tree that the answer is about (`Node.SameAt`). What is seen is what was reported.
-/

namespace RuleEditor

/-! ## Tables that list a function -/

namespace Keyed

variable {κ α : Type} [DecidableEq κ]

theorem ofList_concat (entries : List (κ × α)) (key : κ) (value : α) :
    ofList (entries ++ [(key, value)]) = (ofList entries).insert key value := by
  simp [ofList, List.foldl_append]

/-- Storing the values of a function at some keys gives a table of these values. -/
theorem get?_ofList_graph (f : κ → Option α) (keys : List κ) (key : κ) :
    (ofList (keys.filterMap fun k => (f k).map fun value => (k, value))).get? key =
      if key ∈ keys then f key else none := by
  induction keys using List.reverseRecOn with
  | nil => rfl
  | append_singleton keys last ih =>
    rw [List.filterMap_append]
    by_cases h : last = key
    · subst h
      cases hf : f last with
      | none => simpa [hf] using ih
      | some value => simp [hf, ofList_concat, get?_insert]
    · have h' : ¬key = last := fun e => h e.symm
      cases hf : f last with
      | none => simpa [hf, h'] using ih
      | some value => simpa [hf, h, h', ofList_concat, get?_insert] using ih

end Keyed

/-! ## Tables without errors -/

namespace PathErrors

theorem errorsAt_of_mem {errors : PathErrors} {entry : Path × List EvaluationError}
    (mem : entry ∈ errors.entries) : errors.errorsAt entry.1 = entry.2 := by
  rw [errorsAt, Keyed.get?_eq_some_iff.2 mem]
  rfl

/-- No path has an error. -/
def Clean (errors : PathErrors) : Prop := ∀ path, errors.errorsAt path = []

theorem clean_empty : Clean ∅ := fun _ => rfl

theorem clean_iff {errors : PathErrors} : errors.Clean ↔ ∀ list ∈ errors.values, list = [] := by
  constructor
  · intro h list mem
    obtain ⟨path, found⟩ := Keyed.mem_values_iff.1 mem
    simpa [errorsAt, found] using h path
  · intro h path
    rw [errorsAt]
    cases found : errors.get? path with
    | none => rfl
    | some list => exact h list (Keyed.mem_values_iff.2 ⟨path, found⟩)

theorem count_eq_zero_iff {errors : PathErrors} : errors.count = 0 ↔ errors.Clean := by
  rw [clean_iff, count, List.length_eq_zero_iff, List.flatten_eq_nil_iff]

theorem errorsAt_insert (errors : PathErrors) (path other : Path) (list : List EvaluationError) :
    errorsAt (errors.insert path list) other =
      if path = other then list else errors.errorsAt other := by
  rw [errorsAt, Keyed.get?_insert]
  split <;> rfl

/-- Storing a list that is empty only if the list in its place was keeps exactly those tables clean
that were clean, provided that the list is empty. -/
theorem clean_insert_iff {errors : PathErrors} {path : Path} {list : List EvaluationError}
    (grows : list = [] → errors.errorsAt path = []) :
    Clean (errors.insert path list) ↔ errors.Clean ∧ list = [] := by
  constructor
  · intro h
    have empty : list = [] := by simpa [errorsAt_insert] using h path
    refine ⟨fun other => ?_, empty⟩
    have there := h other
    rw [errorsAt_insert] at there
    split at there
    · next same => exact same ▸ grows empty
    · exact there
  · rintro ⟨clean, rfl⟩ other
    rw [errorsAt_insert]
    split
    · rfl
    · exact clean other

end PathErrors

/-! ## Responses without errors -/

theorem joinErrors_eq_nil_iff {errors more : List EvaluationError} :
    joinErrors errors more = [] ↔ errors = [] ∧ more = [] := by
  induction more generalizing errors with
  | nil => simp [joinErrors]
  | cons error rest ih =>
    rw [joinErrors, ih]
    by_cases known : error ∈ errors
    · have full : errors ≠ [] := List.ne_nil_of_mem known
      simp [known, full]
    · simp [known]

namespace Response

/-- No error of the response, neither in its list nor inside an evaluation, has a path that can be
read. -/
def Clean (response : Response) : Prop :=
  (∀ entry ∈ response.errors, entryPath? entry.path = none) ∧
    ∀ entry ∈ response.evaluation, entry.evaluation.errors ≠ [] → entryPath? entry.path = none

theorem clean_addError_iff (errors : PathErrors) (entry : ErrorEntry) :
    (addError errors entry).Clean ↔ errors.Clean ∧ entryPath? entry.path = none := by
  rw [addError]
  cases entryPath? entry.path with
  | none => simp
  | some path =>
    show PathErrors.Clean (errors.insert path (errors.errorsAt path ++ [entry.error])) ↔ _
    rw [PathErrors.clean_insert_iff (by simp)]
    simp

theorem clean_joinEvaluation_iff (errors : PathErrors) (entry : EvaluationEntry) :
    (joinEvaluation errors entry).Clean ↔
      errors.Clean ∧ (entry.evaluation.errors ≠ [] → entryPath? entry.path = none) := by
  rw [joinEvaluation]
  cases entryPath? entry.path with
  | none => simp
  | some path =>
    by_cases none : entry.evaluation.errors = []
    · simp [none]
    · have full : entry.evaluation.errors.isEmpty = false := by simpa using none
      simp only [full, Bool.false_eq_true, if_false]
      rw [PathErrors.clean_insert_iff fun h => (joinErrors_eq_nil_iff.1 h).1,
        joinErrors_eq_nil_iff]
      simp [none]

/-- Adding entries one by one leaves a clean table exactly when none of them adds an error. -/
theorem clean_foldl_iff {α : Type} {add : PathErrors → α → PathErrors} {Silent : α → Prop}
    (step : ∀ errors entry, (add errors entry).Clean ↔ errors.Clean ∧ Silent entry)
    (entries : List α) (errors : PathErrors) :
    (entries.foldl add errors).Clean ↔ errors.Clean ∧ ∀ entry ∈ entries, Silent entry := by
  induction entries generalizing errors with
  | nil => simp
  | cons entry rest ih =>
    rw [List.foldl_cons, ih, step, List.forall_mem_cons, and_assoc]

theorem errorCount_annotations_eq_zero_iff {response : Response} :
    response.annotations.errorCount = 0 ↔ response.Clean := by
  rw [Annotations.errorCount, PathErrors.count_eq_zero_iff]
  show (response.evaluation.foldl joinEvaluation (response.errors.foldl addError ∅)).Clean ↔ _
  rw [clean_foldl_iff clean_joinEvaluation_iff, clean_foldl_iff clean_addError_iff, Clean]
  simp [PathErrors.clean_empty]

end Response

/-! ## Anchors -/

/-- The same node is at a path in both trees. -/
def Node.SameAt (before after : Node) (path : Path) : Prop :=
  ∃ sent shown, before.at? path = some sent ∧ after.at? path = some shown ∧ sent.id = shown.id

namespace Merged

variable {revision : Revision} {annotations : Annotations} {tree root : Node} {path : Path}

theorem get?_anchors :
    (ofAnnotations revision annotations tree).anchors.get? path =
      if path ∈ annotations.errors.keys ++ annotations.evaluations.keys then
        (tree.at? path).map (·.id)
      else none := by
  have graph := Keyed.get?_ofList_graph (fun path => (tree.at? path).map (·.id))
    (annotations.errors.keys ++ annotations.evaluations.keys) path
  simpa [ofAnnotations, Option.map_map, Function.comp_def] using graph

theorem holds_ofAnnotations_iff
    (annotated : path ∈ annotations.errors.keys ++ annotations.evaluations.keys) :
    (ofAnnotations revision annotations tree).holds root path = true ↔
      tree.SameAt root path := by
  rw [holds, get?_anchors, if_pos annotated, Node.SameAt]
  cases tree.at? path <;> cases root.at? path <;> simp

/-- **An error list is seen while its node is where it was.** -/
theorem get?_errors_visibleIn_iff {errors : List EvaluationError} :
    ((ofAnnotations revision annotations tree).visibleIn root).errors.get? path = some errors ↔
      annotations.errors.get? path = some errors ∧ tree.SameAt root path := by
  rw [visibleIn, Keyed.get?_filter, Option.filter_eq_some_iff]
  refine and_congr_right fun found => holds_ofAnnotations_iff ?_
  exact List.mem_append_left _ (Keyed.mem_keys_iff.2 ⟨errors, found⟩)

/-- **An evaluation is seen while its node is where it was.** -/
theorem get?_evaluations_visibleIn_iff {evaluation : NodeEvaluation} :
    ((ofAnnotations revision annotations tree).visibleIn root).evaluations.get? path =
        some evaluation ↔
      annotations.evaluations.get? path = some evaluation ∧ tree.SameAt root path := by
  rw [visibleIn, Keyed.get?_filter, Option.filter_eq_some_iff]
  refine and_congr_right fun found => holds_ofAnnotations_iff ?_
  exact List.mem_append_right _ (Keyed.mem_keys_iff.2 ⟨evaluation, found⟩)

end Merged

end RuleEditor
