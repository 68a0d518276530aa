import Mathlib.Algebra.Ring.Nat
import RuleEditor.Proofs.Keyed
import RuleEditor.Proofs.Validation.Findings

/-!
# Annotations, entry by entry

**One path.** What the annotations of a response say about a path depends on the entries for this
path only (`Response.entriesFor`), and on their order in each of the two lists. Texts that differ in
zeros in front of a position name one path.

**One entry.** For each of the steps that go through the two lists there is a lemma that says what
an entry does to the errors of a path, to the keys and to the evaluation of a path. By induction on
the lists this is what all entries do. An error of an evaluation is compared with a list that grows
meanwhile; what comes of it is the list from before, and behind it the other errors, each where it
first occurs (`joinErrors_eq`).

**Order.** `Response.Reordered` relates lists of entries that differ by exchanges of neighbours
which are not for one path. Such an exchange keeps the entries for every path, and so their order.
-/

namespace RuleEditor

/-! ## Joining errors -/

/-- **Joining leaves what was there, and adds the other errors where they first occur.** -/
theorem joinErrors_eq (errors more : List EvaluationError) :
    joinErrors errors more = errors ++ (more.filter (· ∉ errors)).eraseDups := by
  induction more generalizing errors with
  | nil => exact (List.append_nil _).symm
  | cons error rest ih =>
    rw [joinErrors, ih]
    by_cases known : error ∈ errors
    · rw [if_pos known, List.filter_cons_of_neg (by simpa using known)]
    · -- The errors after this one are new if they are neither known nor this one.
      have later : (rest.filter fun other => other ∉ errors ++ [error]) =
          (rest.filter (· ∉ errors)).filter fun other => !other == error := by
        rw [List.filter_filter]
        refine List.filter_congr fun other _ => ?_
        by_cases same : other = error <;> simp [same]
      rw [if_neg known, List.filter_cons_of_pos (by simpa using known), List.eraseDups_cons, later,
        List.append_assoc]
      rfl

theorem joinErrors_append (errors more later : List EvaluationError) :
    joinErrors errors (more ++ later) = joinErrors (joinErrors errors more) later := by
  induction more generalizing errors with
  | nil => rfl
  | cons error rest ih =>
    rw [List.cons_append, joinErrors, joinErrors]
    exact ih _

/-! ## Tables -/

namespace PathErrors

variable {errors others : PathErrors} {path : Path}

theorem count_eq_sum (errors : PathErrors) :
    errors.count = (errors.keys.map fun path => (errors.errorsAt path).length).sum := by
  have lengths : errors.values.map List.length =
      errors.keys.map fun path => (errors.errorsAt path).length := by
    rw [Keyed.values, Keyed.keys, List.map_map, List.map_map]
    refine List.map_congr_left fun entry mem => ?_
    exact congrArg List.length (errorsAt_of_mem mem).symm
  rw [count, List.length_flatten, lengths]

/-- Tables that have a path or not, and have the same errors there, say the same about it. -/
theorem get?_eq_of_errorsAt (same : errors.errorsAt path = others.errorsAt path)
    (known : path ∈ errors.keys ↔ path ∈ others.keys) : errors.get? path = others.get? path := by
  rw [Keyed.mem_keys_iff, Keyed.mem_keys_iff] at known
  rw [errorsAt, errorsAt] at same
  cases stored : errors.get? path with
  | none =>
    refine (Option.eq_none_iff_forall_ne_some.2 fun list stored' => ?_).symm
    obtain ⟨_, there⟩ := known.2 ⟨list, stored'⟩
    cases stored.symm.trans there
  | some list =>
    obtain ⟨list', stored'⟩ := known.1 ⟨list, stored⟩
    rw [stored, stored'] at same
    rw [stored', show list = list' from same]

end PathErrors

namespace Response

variable {response other : Response} {path : Path}

/-! ## One entry -/

theorem errorsAt_addError (errors : PathErrors) (entry : ErrorEntry) (path : Path) :
    (addError errors entry).errorsAt path =
      errors.errorsAt path ++ if entryPath? entry.path = some path then [entry.error] else [] := by
  rw [addError]
  cases entryPath? entry.path with
  | none => exact (List.append_nil _).symm
  | some place =>
    simp only [Option.some.injEq]
    exact PathErrors.errorsAt_append errors place path [entry.error]

theorem mem_keys_addError_iff (errors : PathErrors) (entry : ErrorEntry) :
    path ∈ (addError errors entry).keys ↔
      path ∈ errors.keys ∨ entryPath? entry.path = some path := by
  rw [addError]
  cases entryPath? entry.path with
  | none => simp
  | some place =>
    rw [Option.some.injEq, eq_comm]
    exact Keyed.mem_keys_insert

theorem errorsAt_joinEvaluation (errors : PathErrors) (entry : EvaluationEntry) (path : Path) :
    (joinEvaluation errors entry).errorsAt path =
      joinErrors (errors.errorsAt path)
        (if entryPath? entry.path = some path then entry.evaluation.errors else []) := by
  rw [joinEvaluation]
  cases entryPath? entry.path with
  | none => rfl
  | some place =>
    simp only [Option.some.injEq]
    by_cases none : entry.evaluation.errors = []
    · rw [none, ite_self]
      rfl
    · have full : ¬ entry.evaluation.errors.isEmpty := by simpa using none
      show PathErrors.errorsAt (if _ then _ else _) path = _
      rw [if_neg full, PathErrors.errorsAt_insert]
      by_cases same : place = path
      · rw [if_pos same, if_pos same, same]
      · rw [if_neg same, if_neg same]
        rfl

theorem mem_keys_joinEvaluation_iff (errors : PathErrors) (entry : EvaluationEntry) :
    path ∈ (joinEvaluation errors entry).keys ↔
      path ∈ errors.keys ∨ entryPath? entry.path = some path ∧ entry.evaluation.errors ≠ [] := by
  rw [joinEvaluation]
  cases entryPath? entry.path with
  | none => simp
  | some place =>
    by_cases none : entry.evaluation.errors = []
    · simp [none]
    · have full : ¬ entry.evaluation.errors.isEmpty := by simpa using none
      show path ∈ Keyed.keys (if _ then _ else _) ↔ _
      rw [if_neg full, Keyed.mem_keys_insert, Option.some.injEq, and_iff_left none, eq_comm]

theorem get?_storeEvaluation (evaluations : PathEvaluations) (entry : EvaluationEntry)
    (path : Path) :
    (storeEvaluation evaluations entry).get? path =
      if entryPath? entry.path = some path then some entry.evaluation
      else evaluations.get? path := by
  rw [storeEvaluation]
  cases entryPath? entry.path with
  | none => rfl
  | some place =>
    simp only [Option.some.injEq]
    exact Keyed.get?_insert evaluations place path entry.evaluation

/-! ## All entries -/

section Entries

variable {α : Type} {text : α → String}

/-- The entries whose text is one of the path. -/
def entriesFor (text : α → String) (path : Path) (entries : List α) : List α :=
  entries.filter fun entry => entryPath? (text entry) = some path

theorem mem_entriesFor_iff {entries : List α} {entry : α} :
    entry ∈ entriesFor text path entries ↔
      entry ∈ entries ∧ entryPath? (text entry) = some path := by
  rw [entriesFor, List.mem_filter, decide_eq_true_iff]

theorem entriesFor_cons (text : α → String) (path : Path) (entry : α) (rest : List α) :
    entriesFor text path (entry :: rest) =
      (if entryPath? (text entry) = some path then [entry] else []) ++
        entriesFor text path rest := by
  rw [entriesFor, List.filter_cons]
  by_cases here : entryPath? (text entry) = some path <;> simp [here, entriesFor]

/-- The keys of a table that entries are added to one by one. -/
theorem mem_keys_foldl_iff {add : PathErrors → α → PathErrors} {Adds : α → Prop}
    (step : ∀ errors entry, path ∈ (add errors entry).keys ↔ path ∈ errors.keys ∨ Adds entry)
    (entries : List α) (errors : PathErrors) :
    path ∈ (entries.foldl add errors).keys ↔
      path ∈ errors.keys ∨ ∃ entry ∈ entries, Adds entry := by
  induction entries generalizing errors with
  | nil => simp
  | cons entry rest ih => rw [List.foldl_cons, ih, step, List.exists_mem_cons_iff, or_assoc]

/-- Entries without a path may be left out if they change nothing. -/
theorem foldl_filter_of_unread {β : Type} {add : β → α → β}
    (unread : ∀ value entry, entryPath? (text entry) = none → add value entry = value)
    (entries : List α) (value : β) :
    (entries.filter fun entry => (entryPath? (text entry)).isSome).foldl add value =
      entries.foldl add value := by
  rw [List.foldl_filter]
  congr 1
  funext value entry
  cases read : entryPath? (text entry) with
  | some path => rfl
  | none => exact (unread value entry read).symm

end Entries

theorem errorsAt_foldl_addError (entries : List ErrorEntry) (errors : PathErrors) (path : Path) :
    (entries.foldl addError errors).errorsAt path =
      errors.errorsAt path ++ (entriesFor ErrorEntry.path path entries).map ErrorEntry.error := by
  induction entries generalizing errors with
  | nil => exact (List.append_nil _).symm
  | cons entry rest ih =>
    rw [List.foldl_cons, ih, errorsAt_addError, entriesFor_cons, List.map_append,
      List.append_assoc]
    congr 2
    split <;> rfl

theorem errorsAt_foldl_joinEvaluation (entries : List EvaluationEntry) (errors : PathErrors)
    (path : Path) :
    (entries.foldl joinEvaluation errors).errorsAt path =
      joinErrors (errors.errorsAt path)
        ((entriesFor EvaluationEntry.path path entries).flatMap (·.evaluation.errors)) := by
  induction entries generalizing errors with
  | nil => rfl
  | cons entry rest ih =>
    rw [List.foldl_cons, ih, errorsAt_joinEvaluation, entriesFor_cons, List.flatMap_append,
      joinErrors_append]
    congr 2
    split
    · exact (List.flatMap_singleton _ _).symm
    · rfl

/-- Of the evaluations that are stored at a path the last one stays. -/
theorem get?_foldl_storeEvaluation (entries : List EvaluationEntry)
    (evaluations : PathEvaluations) (path : Path) :
    (entries.foldl storeEvaluation evaluations).get? path =
      ((entriesFor EvaluationEntry.path path entries).getLast?.map
        EvaluationEntry.evaluation).or (evaluations.get? path) := by
  induction entries generalizing evaluations with
  | nil => rfl
  | cons entry rest ih =>
    rw [List.foldl_cons, ih, get?_storeEvaluation, entriesFor_cons, List.getLast?_append]
    cases (entriesFor EvaluationEntry.path path rest).getLast? with
    | some last => rfl
    | none => split <;> rfl

/-! ## What annotations say about a path -/

theorem errorsAt_annotations (response : Response) (path : Path) :
    response.annotations.errors.errorsAt path =
      joinErrors ((entriesFor ErrorEntry.path path response.errors).map ErrorEntry.error)
        ((entriesFor EvaluationEntry.path path response.evaluation).flatMap
          (·.evaluation.errors)) := by
  show (response.evaluation.foldl joinEvaluation
    (response.errors.foldl addError ∅)).errorsAt path = _
  rw [errorsAt_foldl_joinEvaluation, errorsAt_foldl_addError]
  rfl

theorem mem_keys_annotations_iff (response : Response) (path : Path) :
    path ∈ response.annotations.errors.keys ↔
      entriesFor ErrorEntry.path path response.errors ≠ [] ∨
        ∃ entry ∈ entriesFor EvaluationEntry.path path response.evaluation,
          entry.evaluation.errors ≠ [] := by
  have listed : path ∈ (response.errors.foldl addError ∅).keys ↔
      entriesFor ErrorEntry.path path response.errors ≠ [] := by
    rw [mem_keys_foldl_iff mem_keys_addError_iff, or_iff_right nofun, ne_eq,
      List.eq_nil_iff_forall_not_mem, not_forall]
    simp only [mem_entriesFor_iff, not_not]
  show path ∈ (response.evaluation.foldl joinEvaluation
    (response.errors.foldl addError ∅)).keys ↔ _
  rw [mem_keys_foldl_iff mem_keys_joinEvaluation_iff, listed]
  simp only [mem_entriesFor_iff, and_assoc]

theorem get?_evaluations_annotations (response : Response) (path : Path) :
    response.annotations.evaluations.get? path =
      (entriesFor EvaluationEntry.path path response.evaluation).getLast?.map
        EvaluationEntry.evaluation := by
  show (response.evaluation.foldl storeEvaluation ∅).get? path = _
  rw [get?_foldl_storeEvaluation, Keyed.get?_empty, Option.or_none]

/-! ## Entries that cannot be read -/

/-- The response without the entries whose text is not that of a path. -/
def readable (response : Response) : Response :=
  ⟨response.errors.filter fun entry => (entryPath? entry.path).isSome,
    response.evaluation.filter fun entry => (entryPath? entry.path).isSome⟩

theorem annotations_readable (response : Response) :
    response.readable.annotations = response.annotations := by
  have added (errors : PathErrors) (entry : ErrorEntry)
      (unread : entryPath? entry.path = none) : addError errors entry = errors := by
    rw [addError, unread]
  have joined (errors : PathErrors) (entry : EvaluationEntry)
      (unread : entryPath? entry.path = none) : joinEvaluation errors entry = errors := by
    rw [joinEvaluation, unread]
  have stored (evaluations : PathEvaluations) (entry : EvaluationEntry)
      (unread : entryPath? entry.path = none) : storeEvaluation evaluations entry = evaluations := by
    rw [storeEvaluation, unread]
  rw [annotations, annotations, readable, foldl_filter_of_unread added,
    foldl_filter_of_unread joined, foldl_filter_of_unread stored]

/-! ## The order of entries -/

/-- The second list is the first one after exchanges of neighbours that are not for one path. -/
inductive Reordered {α : Type} (text : α → String) : List α → List α → Prop
  | refl (entries : List α) : Reordered text entries entries
  | swap (before after : List α) {first second : α}
      (apart : ∀ path, entryPath? (text first) = some path →
        entryPath? (text second) ≠ some path) :
      Reordered text (before ++ first :: second :: after) (before ++ second :: first :: after)
  | trans {entries between others : List α} (first : Reordered text entries between)
      (later : Reordered text between others) : Reordered text entries others

/-- **Reordering keeps the entries for a path, in their order.** -/
theorem Reordered.entriesFor_eq {α : Type} {text : α → String} {entries others : List α}
    (reordered : Reordered text entries others) (path : Path) :
    entriesFor text path others = entriesFor text path entries := by
  induction reordered with
  | refl entries => rfl
  | @swap before after first second apart =>
    have exchanged : entriesFor text path (second :: first :: after) =
        entriesFor text path (first :: second :: after) := by
      rw [entriesFor_cons, entriesFor_cons, entriesFor_cons, entriesFor_cons]
      by_cases here : entryPath? (text first) = some path
      · rw [if_neg (apart path here)]
        rfl
      · rw [if_neg here]
        rfl
    rw [entriesFor, entriesFor, List.filter_append, List.filter_append]
    exact congrArg _ exchanged
  | trans first later ih ih' => exact ih'.trans ih

/-- **What annotations say, by the entries of a response.** At every path the errors are those that
the list of the response has for the path, in order, and behind them the errors inside the
evaluations for the path, in order, without those that are there already. The path is a key exactly
if there is an error of either kind, and its evaluation is the last one for it. The number of errors
is the sum over all keys. Entries that cannot be read may be left out, and entries that are not for
one path may change places, without an effect on any path. -/
theorem annotations_eq_of_entries (response : Response) :
    let annotations := response.annotations
    (∀ path,
      let listed := (entriesFor ErrorEntry.path path response.errors).map ErrorEntry.error
      let evaluations := entriesFor EvaluationEntry.path path response.evaluation
      let inside := evaluations.flatMap (·.evaluation.errors)
      annotations.errors.errorsAt path = listed ++ (inside.filter (· ∉ listed)).eraseDups ∧
        (path ∈ annotations.errors.keys ↔
          listed ≠ [] ∨ ∃ entry ∈ evaluations, entry.evaluation.errors ≠ []) ∧
        annotations.evaluations.get? path =
          evaluations.getLast?.map EvaluationEntry.evaluation) ∧
    annotations.errorCount =
      (annotations.errors.keys.map fun path => (annotations.errors.errorsAt path).length).sum ∧
    response.readable.annotations = annotations ∧
    ∀ other : Response, Reordered ErrorEntry.path response.errors other.errors →
      Reordered EvaluationEntry.path response.evaluation other.evaluation →
      ∀ path, other.annotations.errors.get? path = annotations.errors.get? path ∧
        other.annotations.evaluations.get? path = annotations.evaluations.get? path := by
  refine ⟨fun path => ⟨?errors, ?key, ?evaluation⟩, ?count, ?unread, ?order⟩
  case errors => rw [errorsAt_annotations, joinErrors_eq]
  case key => rw [mem_keys_annotations_iff, ne_eq, ne_eq, List.map_eq_nil_iff]
  case evaluation => exact get?_evaluations_annotations response path
  case count => exact PathErrors.count_eq_sum _
  case unread => exact annotations_readable response
  case order =>
    intro other errors evaluation path
    have listed := errors.entriesFor_eq path
    have inside := evaluation.entriesFor_eq path
    constructor
    · refine PathErrors.get?_eq_of_errorsAt ?_ ?_
      · rw [errorsAt_annotations, errorsAt_annotations, listed, inside]
      · rw [mem_keys_annotations_iff, mem_keys_annotations_iff, listed, inside]
    · rw [get?_evaluations_annotations, get?_evaluations_annotations, inside]

/-- Two texts of one path, and one that is not the text of a path. The errors of the list are kept
twice, the errors inside the evaluations are not. -/
theorem annotations_eq_of_entries_two_texts :
    let rejected : EvaluationError := .ofCode .argumentRequired
    let mistyped : EvaluationError := .ofCode .argumentInvalidType
    let errors : List ErrorEntry :=
      [⟨"root.children.0", rejected⟩, ⟨"children.0", mistyped⟩, ⟨"root.children.00", rejected⟩]
    let whole : EvaluationEntry := ⟨"root", none, [rejected]⟩
    let earlier : EvaluationEntry :=
      ⟨"root.children.00", none, [mistyped, rejected, mistyped]⟩
    let last : EvaluationEntry := ⟨"root.children.0", none, [mistyped]⟩
    let response : Response := ⟨errors, [whole, earlier, last]⟩
    let other : Response := ⟨errors, [earlier, whole, last]⟩
    Reordered EvaluationEntry.path response.evaluation other.evaluation ∧
      response.annotations.errors.errorsAt [.child 0] = [rejected, rejected, mistyped] ∧
      response.annotations.evaluations.get? [.child 0] = some last.evaluation ∧
      ∀ path, other.annotations.errors.get? path = response.annotations.errors.get? path := by
  intro rejected mistyped errors whole earlier last response other
  have root : entryPath? "root" = some [] := by decide +kernel
  have zero : entryPath? "root.children.0" = some [.child 0] := by decide +kernel
  have zeros : entryPath? "root.children.00" = some [.child 0] := by decide +kernel
  have reordered : Reordered EvaluationEntry.path response.evaluation other.evaluation := by
    refine .swap [] [last] fun path here there => ?_
    cases root.symm.trans here
    cases zeros.symm.trans there
  obtain ⟨paths, -, -, order⟩ := annotations_eq_of_entries response
  obtain ⟨shown, -, evaluation⟩ := paths [.child 0]
  have found : entriesFor EvaluationEntry.path [.child 0] response.evaluation =
      [earlier, last] := by
    simp [entriesFor, response, whole, earlier, last, root, zero, zeros]
  refine ⟨reordered, shown.trans (by decide +kernel), evaluation.trans ?_, fun path => ?_⟩
  · rw [found]
    rfl
  · exact (order other (.refl errors) reordered path).1

end Response

end RuleEditor
