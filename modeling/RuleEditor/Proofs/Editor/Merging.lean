import RuleEditor.Proofs.Editor.Run
import RuleEditor.Proofs.Validation.Annotations

/-!
# What validation knows of the current tree

**The invariant** (`Run.Sound`). In every state of every run, the state of validation speaks of the
editor's tree and revision, its local errors are those of this tree, and each tree that it keeps for
a request is the tree of the revision of that request. What is merged is the response that was
merged last, anchored in the tree of its own revision, however old that is by then.

**Saving.** A tree may be saved exactly when it has no local errors and the response merged last is
about this very revision, anchored in this very tree, and free of errors.

**Seeing.** A server annotation is seen exactly while the node at its path is the one that was there
in the tree of the merged revision.
-/

namespace RuleEditor

/-! ## Reading a log -/

namespace Log

/-- The response that was merged last, with its revision. -/
def merged? : Log → Option (Revision × Response)
  | [] => none
  | .answered revision response true :: _ => some (revision, response)
  | _ :: older => merged? older

/-- The number of edits. -/
def edits : Log → Nat
  | [] => 0
  | .edited _ :: older => edits older + 1
  | _ :: older => edits older

theorem merged?_append (newer older : Log) :
    merged? (newer ++ older) = (merged? newer).or (merged? older) := by
  induction newer with
  | nil => rfl
  | cons event rest ih =>
    cases event with
    | answered revision response merged =>
      cases merged with
      | true => rfl
      | false => exact ih
    | _ => exact ih

theorem edits_append (newer older : Log) : edits (newer ++ older) = edits newer + edits older := by
  induction newer with
  | nil => exact (Nat.zero_add _).symm
  | cons event rest ih =>
    cases event with
    | edited root => exact (congrArg (· + 1) ih).trans (Nat.add_right_comm _ _ _)
    | _ => exact ih

theorem mem_of_merged? {log : Log} {revision : Revision} {response : Response}
    (h : log.merged? = some (revision, response)) : .answered revision response true ∈ log := by
  induction log with
  | nil => cases h
  | cons event older ih =>
    cases event with
    | answered revision' response' merged =>
      cases merged with
      | true =>
        cases h
        exact List.mem_cons_self
      | false => exact List.mem_cons_of_mem _ (ih h)
    | _ => exact List.mem_cons_of_mem _ (ih h)

end Log

namespace Run

/-! ## The invariant -/

/-- What is merged is the response that was merged last, anchored in the tree of its revision. -/
def Anchored (trees : List Node) (last : Option (Revision × Response)) (server : Option Merged) :
    Prop :=
  match last with
  | none => server = none
  | some (revision, response) => ∃ tree, trees[revision]? = some tree ∧
      server = some (Merged.ofAnnotations revision response.annotations tree)

structure Sound (run : Run) : Prop where
  current : run.editor.validation.current = run.editor.revision
  root : run.editor.validation.root = some run.editor.root
  localErrors : run.editor.validation.localErrors =
    run.editor.root.validateLocal run.editor.config.rootKind run.editor.context
  visible : run.editor.validation.visible = run.editor.validation.refresh.visible
  length : run.trees.length = run.editor.revision + 1
  last : run.trees[run.editor.revision]? = some run.editor.root
  submitted : ∀ revision tree, run.editor.validation.submitted.get? revision = some tree →
    run.trees[revision]? = some tree
  server : Anchored run.trees run.log.merged? run.editor.validation.server

/-- The trees of the revisions so far stay what they are. -/
theorem getElem?_trees_append {trees : List Node} {revision : Revision} {tree : Node}
    (found : trees[revision]? = some tree) (more : List Node) :
    (trees ++ more)[revision]? = some tree := by
  obtain ⟨bound, -⟩ := List.getElem?_eq_some_iff.1 found
  rw [List.getElem?_append_left bound, found]

theorem Anchored.append {trees : List Node} {last : Option (Revision × Response)}
    {server : Option Merged} (h : Anchored trees last server) (more : List Node) :
    Anchored (trees ++ more) last server := by
  cases last with
  | none => exact h
  | some said =>
    obtain ⟨tree, found, eq⟩ := h
    exact ⟨tree, getElem?_trees_append found more, eq⟩

namespace Sound

variable {run : Run} {revision : Revision} {tree : Node}

theorem start (root : Node) (config : EditorConfig) : Sound (Run.start root config) where
  current := rfl
  root := rfl
  localErrors := rfl
  visible := rfl
  length := rfl
  last := rfl
  submitted := fun _ _ found => by cases found
  server := rfl

/-- The tree that an answer is merged with is that of the revision of the answer. -/
theorem tree? (sound : Sound run) (known : run.editor.validation.tree? revision = some tree) :
    run.trees[revision]? = some tree := by
  rw [ValidationState.tree?] at known
  split at known
  · next found =>
    cases known
    exact sound.submitted revision tree found
  · split at known
    · next now =>
      rw [sound.root] at known
      cases known
      rw [now, sound.current]
      exact sound.last
    · cases known

theorem le_revision (sound : Sound run) (found : run.trees[revision]? = some tree) :
    revision ≤ run.editor.revision := by
  obtain ⟨bound, -⟩ := List.getElem?_eq_some_iff.1 found
  rw [sound.length] at bound
  exact Nat.le_of_lt_succ bound

theorem submitted_markPending (sound : Sound run) :
    (run.editor.validation.markPending run.editor.revision).submitted =
      run.editor.validation.submitted.insert run.editor.revision run.editor.root := by
  simp [ValidationState.markPending, sound.root, sound.current]

theorem get?_submitted_markPending (sound : Sound run)
    (found : (run.editor.validation.markPending run.editor.revision).submitted.get? revision =
      some tree) :
    run.trees[revision]? = some tree := by
  rw [sound.submitted_markPending, Keyed.get?_insert] at found
  split at found
  · next same =>
    cases found
    exact same ▸ sound.last
  · exact sound.submitted revision tree found

theorem edited (sound : Sound run) (root : Node) :
    Sound (run.edited (run.editor.advance root)) where
  current := rfl
  root := rfl
  localErrors := rfl
  visible := rfl
  length := by
    show (run.trees ++ [root]).length = run.editor.revision + 1 + 1
    rw [List.length_append, sound.length]
    rfl
  last := by
    show (run.trees ++ [root])[run.editor.revision + 1]? = some root
    rw [← sound.length, List.getElem?_concat_length]
  submitted := fun revision tree found =>
    getElem?_trees_append (sound.submitted revision tree found) [root]
  server := sound.server.append [root]

/-- A failure takes a tree away and changes nothing else that is known. -/
theorem failed (sound : Sound run) (revision : Revision) {event : Event}
    (quiet : Log.merged? (event :: run.log) = run.log.merged?) :
    Sound (run.record (run.editor.validation.recordFailure revision).2 event) := by
  rw [ValidationState.recordFailure_eq]
  exact { sound with
    submitted := fun sent tree found => by
      have kept : (run.editor.validation.submitted.erase revision).get? sent = some tree := found
      rw [Keyed.get?_erase] at kept
      split at kept
      · cases kept
      · exact sound.submitted sent tree kept
    server := by
      show Anchored run.trees (Log.merged? (event :: run.log)) run.editor.validation.server
      rw [quiet]
      exact sound.server }

theorem merged {response : Response} (sound : Sound run)
    (known : run.editor.validation.tree? revision = some tree) :
    Sound (run.record (run.editor.validation.merge revision response tree)
      (.answered revision response true)) :=
  { sound with
    visible := rfl
    submitted := fun sent tree found => by
      have kept : (run.editor.validation.submitted.filter
        fun sent _ => revision < sent).get? sent = some tree := found
      rw [Keyed.get?_filter, Option.filter_eq_some_iff] at kept
      exact sound.submitted sent tree kept.1
    server := ⟨tree, sound.tree? known, rfl⟩ }

theorem step {next : Run} (h : Step run next) (sound : Sound run) : Sound next := by
  have pending : Sound { run with editor := { run.editor with
      validation := run.editor.validation.markPending run.editor.revision } } :=
    { sound with submitted := fun _ _ found => sound.get?_submitted_markPending found }
  cases h with
  | refused => exact sound
  | edited root => exact sound.edited root
  | context context =>
    exact { sound with current := rfl, root := rfl, localErrors := rfl, visible := rfl }
  | mode mode => exact { sound with }
  | requested => exact { pending with }
  | unsendable => exact pending.failed run.editor.revision rfl
  | merged fresh known => exact sound.merged known
  | dropped unknown => exact { sound with }
  | failed revision => exact sound.failed revision rfl

/-- **The state of validation is about the current tree, in every state of every run.** -/
theorem of (root : Node) (config : EditorConfig) (operations : List Operation) :
    Sound (Run.of root config operations) :=
  steps_induction (fun h sound => step h sound) (start root config) operations

end Sound

/-- A fact about all runs may be carried along them on the strength of the invariant. -/
theorem of_induction {P : Run → Prop} {root : Node} {config : EditorConfig}
    (hstep : ∀ {run next : Run}, Step run next → Sound run → P run → P next)
    (hstart : P (start root config)) (operations : List Operation) :
    P (Run.of root config operations) := by
  have both : Sound (start root config) ∧ P (start root config) := ⟨.start root config, hstart⟩
  refine (steps_induction (P := fun run => Sound run ∧ P run) ?_ both operations).2
  intro run next h both
  obtain ⟨sound, known⟩ := both
  exact ⟨sound.step h, hstep h sound known⟩

/-! ## Saving -/

theorem canSave_eq_true_iff {validation : ValidationState} :
    validation.canSave = true ↔ validation.localErrors.Clean ∧ ∃ merged,
      validation.server = some merged ∧ merged.revision = validation.current ∧
        merged.annotations.errorCount = 0 := by
  have noLocal : validation.hasLocalErrors = false ↔ validation.localErrors.Clean := by
    rw [PathErrors.clean_iff, ValidationState.hasLocalErrors, List.any_eq_false]
    refine forall₂_congr fun list _ => ?_
    cases list <;> simp
  rw [ValidationState.canSave, Bool.and_eq_true, Bool.not_eq_true', noLocal]
  refine and_congr_right fun _ => ?_
  cases validation.server <;> simp

/-- What was merged last is about a revision that has been reached by then. -/
theorem Sound.merged_le {run : Run} (sound : Sound run) {revision : Revision} {response : Response}
    (last : run.log.merged? = some (revision, response)) : revision ≤ run.editor.revision := by
  have server := sound.server
  rw [last] at server
  obtain ⟨tree, found, -⟩ := server
  exact sound.le_revision found

/-- Every edit made a revision, and no answer was merged before its revision was reached. -/
structure Timely (run : Run) : Prop where
  edits : run.log.edits = run.editor.revision
  merged : ∀ older revision response, older <:+ run.log →
    Log.merged? older = some (revision, response) → revision ≤ Log.edits older

theorem Step.edits {run next : Run} (h : Step run next)
    (timely : run.log.edits = run.editor.revision) : next.log.edits = next.editor.revision := by
  cases h with
  | edited root => exact congrArg (· + 1) timely
  | _ => exact timely

theorem Step.log {run next : Run} (h : Step run next) :
    next.log = run.log ∨ ∃ event, next.log = event :: run.log := by
  cases h with
  | refused => exact Or.inl rfl
  | context context => exact Or.inl rfl
  | mode mode => exact Or.inl rfl
  | _ => exact Or.inr ⟨_, rfl⟩

theorem Timely.step {run next : Run} (h : Step run next) (sound : Sound next)
    (timely : Timely run) : Timely next where
  edits := h.edits timely.edits
  merged := fun older revision response suffix last => by
    have bound : older = next.log → revision ≤ Log.edits older := by
      intro whole
      rw [whole] at last ⊢
      rw [h.edits timely.edits]
      exact sound.merged_le last
    rcases h.log with same | ⟨event, longer⟩
    · rw [same] at suffix
      exact timely.merged older revision response suffix last
    · rw [longer, List.suffix_cons_iff] at suffix
      rcases suffix with whole | suffix
      · exact bound (whole.trans longer.symm)
      · exact timely.merged older revision response suffix last

theorem Timely.of (root : Node) (config : EditorConfig) (operations : List Operation) :
    Timely (Run.of root config operations) := by
  have start : Timely (start root config) :=
    ⟨rfl, fun older revision response suffix last => by
      rw [show older = [] from List.suffix_nil.1 suffix] at last
      cases last⟩
  exact of_induction (fun h sound timely => timely.step h (sound.step h)) start operations

/-- A merged answer about this revision is one that is anchored in this tree. -/
theorem Sound.server_of_revision {run : Run} (sound : Sound run) {merged : Merged}
    (there : run.editor.validation.server = some merged)
    (now : merged.revision = run.editor.revision) :
    ∃ response, run.log.merged? = some (run.editor.revision, response) ∧
      merged =
        Merged.ofAnnotations run.editor.revision response.annotations run.editor.root := by
  have server := sound.server
  rw [there] at server
  cases last : run.log.merged? with
  | none =>
    rw [last] at server
    cases server
  | some said =>
    obtain ⟨revision, response⟩ := said
    rw [last] at server
    obtain ⟨tree, found, eq⟩ := server
    cases eq
    obtain rfl : revision = run.editor.revision := now
    obtain rfl : tree = run.editor.root := Option.some.inj (found.symm.trans sound.last)
    exact ⟨response, rfl, rfl⟩

/-- The response about the current revision that was merged last came after every edit. -/
theorem Timely.merged_since {run : Run} (timely : Timely run) {response : Response}
    (last : run.log.merged? = some (run.editor.revision, response)) {newer older : Log}
    {tree : Node} (split : run.log = newer ++ .edited tree :: older) :
    Log.merged? newer = some (run.editor.revision, response) := by
  rw [split, Log.merged?_append] at last
  cases since : Log.merged? newer with
  | some said =>
    rw [since] at last
    exact last
  | none =>
    -- It was merged before the edit, when its revision was still to come.
    exfalso
    rw [since] at last
    have bound := timely.merged older run.editor.revision response
      (split ▸ (List.suffix_cons _ older).trans (List.suffix_append newer _)) last
    rw [← timely.edits, split, Log.edits_append] at bound
    have later : Log.edits newer + (Log.edits older + 1) ≤ Log.edits older := bound
    omega

/-- **When a tree may be saved.** In every state of every run: when the structure of the tree has no
errors, and the response that was merged last is about this revision, is anchored in this tree and
has no error whose path can be read. Hence no tree may be saved after an edit until a response for
its revision has been merged. -/
theorem canSave_iff (root : Node) (config : EditorConfig) (operations : List Operation) :
    let run := Run.of root config operations
    (run.editor.canSave = true ↔
      (run.editor.root.validateLocal run.editor.config.rootKind run.editor.context).Clean ∧
        ∃ response, run.log.merged? = some (run.editor.revision, response) ∧
          run.editor.validation.server = some
            (Merged.ofAnnotations run.editor.revision response.annotations run.editor.root) ∧
          response.Clean) ∧
      ∀ (newer : Log) (tree : Node) (older : Log), run.log = newer ++ .edited tree :: older →
        run.editor.canSave = true →
          ∃ response, .answered run.editor.revision response true ∈ newer := by
  intro run
  have sound : Sound run := .of root config operations
  rw [Editor.canSave, canSave_eq_true_iff, sound.localErrors, sound.current]
  constructor
  · refine and_congr_right fun _ => ⟨?_, ?_⟩
    · rintro ⟨merged, there, now, clean⟩
      obtain ⟨response, last, rfl⟩ := sound.server_of_revision there now
      exact ⟨response, last, there, Response.errorCount_annotations_eq_zero_iff.1 clean⟩
    · rintro ⟨response, -, there, clean⟩
      exact ⟨_, there, rfl, Response.errorCount_annotations_eq_zero_iff.2 clean⟩
  · rintro newer tree older split ⟨-, merged, there, now, -⟩
    obtain ⟨response, last, -⟩ := sound.server_of_revision there now
    exact ⟨response, Log.mem_of_merged? ((Timely.of root config operations).merged_since last split)⟩

/-! ## Seeing -/

theorem Step.trees_prefix {run next : Run} (h : Step run next) : run.trees <+: next.trees := by
  cases h with
  | edited root => exact List.prefix_append _ _
  | _ => exact List.prefix_refl _

theorem of_append (root : Node) (config : EditorConfig) (earlier later : List Operation) :
    Run.of root config (earlier ++ later) = (Run.of root config earlier).steps later :=
  List.foldl_append

/-- A run keeps, for each revision that it went through, the tree that was current then. -/
theorem getElem?_trees_of_reached (root : Node) (config : EditorConfig)
    (earlier later : List Operation) :
    (Run.of root config (earlier ++ later)).trees[(Run.of root config earlier).editor.revision]? =
      some (Run.of root config earlier).editor.root := by
  have kept : (Run.of root config earlier).trees <+:
      (Run.of root config (earlier ++ later)).trees := by
    rw [of_append]
    exact steps_induction (P := fun run => (Run.of root config earlier).trees <+: run.trees)
      (fun h before => before.trans h.trees_prefix) (List.prefix_refl _) later
  obtain ⟨more, eq⟩ := kept
  rw [← eq]
  exact getElem?_trees_append (Sound.of root config earlier).last more

/-- **Which annotations are seen.** In every state of every run, nothing is seen before a response
has been merged. After that, an error list or an evaluation is seen at a path exactly when the
response that was merged last has it there, and the same node is there in the current tree and in
the tree that was current when the editor was at the merged revision. -/
theorem visible_iff (root : Node) (config : EditorConfig) (operations : List Operation) :
    let run := Run.of root config operations
    (run.log.merged? = none → run.editor.validation.server = none ∧
      run.editor.validation.visible = Annotations.empty) ∧
    ∀ revision response, run.log.merged? = some (revision, response) →
      run.editor.validation.serverRevision = some revision ∧
      ∃ tree, run.trees[revision]? = some tree ∧
        (∀ earlier later, operations = earlier ++ later →
          (Run.of root config earlier).editor.revision = revision →
            (Run.of root config earlier).editor.root = tree) ∧
        ∀ path, (∀ errors, run.editor.validation.visible.errors.get? path = some errors ↔
          response.annotations.errors.get? path = some errors ∧
            tree.SameAt run.editor.root path) ∧
        ∀ evaluation, run.editor.validation.visible.evaluations.get? path = some evaluation ↔
          response.annotations.evaluations.get? path = some evaluation ∧
            tree.SameAt run.editor.root path := by
  intro run
  have sound : Sound run := .of root config operations
  have server := sound.server
  constructor
  · intro last
    rw [last] at server
    refine ⟨server, ?_⟩
    rw [sound.visible, ValidationState.refresh, server]
  · intro revision response last
    rw [last] at server
    obtain ⟨tree, found, there⟩ := server
    have visible : run.editor.validation.visible =
        (Merged.ofAnnotations revision response.annotations tree).visibleIn run.editor.root := by
      rw [sound.visible, ValidationState.refresh, there, sound.root]
    refine ⟨congrArg _ there, tree, found, ?_, fun path => ?_⟩
    · rintro earlier later rfl rfl
      exact Option.some.inj ((getElem?_trees_of_reached root config earlier later).symm.trans found)
    · rw [visible]
      exact ⟨fun _ => Merged.get?_errors_visibleIn_iff,
        fun _ => Merged.get?_evaluations_visibleIn_iff⟩

end Run

end RuleEditor
