import RuleEditor.Proofs.Editor.Merging

/-!
# Revisions and what is kept beside them

**Counting** (`Run.succeeded`). The revision of an editor counts the edits that succeeded and the
loads. It is kept in the editor and once more in the state of validation, and the errors of the
structure belong to the tree of both.

**What validation is done against** (`Operation.attached`). The kind of root is the one that the
editor was configured with, whatever its mode has become, and the context is the last one that was
attached.

**Refusals.** An edit that fails leaves no trace: the run goes on as if it had not been tried.

**Merged revisions.** The merged revision is never later than the current one, and no later
operation replaces it by an earlier one.
-/

namespace RuleEditor

namespace Operation

def isLoad : Operation → Bool
  | .load _ => true
  | _ => false

/-- The context that is attached after the operation, given the one attached before. -/
def attached (context : Option Context) : Operation → Option Context
  | .withContext context => some context
  | _ => context

end Operation

namespace Run

variable {run next : Run}

/-- Whether the operation is an edit that succeeds. -/
def succeeds (run : Run) : Operation → Bool
  | .apply intent supply => (run.editor.apply intent supply).isOk
  | _ => false

/-- The number of edits that succeed. -/
def succeeded (run : Run) : List Operation → Nat
  | [] => 0
  | operation :: later => (run.succeeds operation).toNat + (run.step operation).succeeded later

/-! ## One operation -/

/-- What an operation does to an editor, apart from its tree and the state of validation. -/
theorem editor_step (run : Run) (operation : Operation) :
    let editor := (run.step operation).editor
    editor.revision =
        run.editor.revision + (run.succeeds operation).toNat + operation.isLoad.toNat ∧
      editor.config.rootKind = run.editor.config.rootKind ∧
      editor.context = operation.attached run.editor.context := by
  cases operation with
  | apply intent supply =>
    rw [step, succeeds]
    split
    · next editor rest applied =>
      obtain ⟨-, root, -, rfl⟩ := Editor.apply_eq_ok applied
      rw [applied]
      exact ⟨rfl, rfl, rfl⟩
    · next error refused =>
      rw [refused]
      exact ⟨rfl, rfl, rfl⟩
  | load root => exact ⟨rfl, rfl, rfl⟩
  | withContext context => exact ⟨rfl, rfl, rfl⟩
  | setMode mode => exact ⟨rfl, rfl, rfl⟩
  | beginValidation =>
    rw [step, Editor.beginValidation]
    cases run.editor.root.toWire <;> exact ⟨rfl, rfl, rfl⟩
  | acceptValidation revision response =>
    rw [step, Editor.acceptValidation]
    cases run.editor.validation.accept? revision response <;> exact ⟨rfl, rfl, rfl⟩
  | validationFailed revision => exact ⟨rfl, rfl, rfl⟩

/-- A response for a revision or a later one has been merged. -/
def MergedSince (merged : Revision) (run : Run) : Prop :=
  ∃ latest, run.editor.validation.serverRevision = some latest ∧ merged ≤ latest

/-- A merged revision is only replaced by one that is not earlier. -/
theorem MergedSince.step {merged : Revision} (h : Step run next) (known : run.MergedSince merged) :
    next.MergedSince merged := by
  obtain ⟨latest, server, le⟩ := known
  cases h with
  | @merged revision response tree fresh found =>
    have later := ValidationState.isSuperseded_eq_false_iff.1 fresh latest server
    exact ⟨revision, rfl, Nat.le_trans le later⟩
  | unsendable =>
    refine ⟨latest, ?_, le⟩
    rw [record, ValidationState.recordFailure_eq]
    exact server
  | failed revision =>
    refine ⟨latest, ?_, le⟩
    rw [record, ValidationState.recordFailure_eq]
    exact server
  | _ => exact ⟨latest, server, le⟩

/-! ## Whole runs -/

theorem revision_steps (run : Run) (operations : List Operation) :
    (run.steps operations).editor.revision =
      run.editor.revision + run.succeeded operations + operations.countP Operation.isLoad := by
  induction operations generalizing run with
  | nil => rfl
  | cons operation later ih =>
    obtain ⟨made, -, -⟩ := run.editor_step operation
    have loads : (operation :: later).countP Operation.isLoad =
        later.countP Operation.isLoad + operation.isLoad.toNat := by
      rw [List.countP_cons]
      cases operation.isLoad <;> rfl
    rw [succeeded, loads]
    refine (ih (run.step operation)).trans ?_
    rw [made]
    ac_rfl

theorem rootKind_steps (run : Run) (operations : List Operation) :
    (run.steps operations).editor.config.rootKind = run.editor.config.rootKind := by
  induction operations generalizing run with
  | nil => rfl
  | cons operation later ih => exact (ih _).trans (run.editor_step operation).2.1

theorem context_steps (run : Run) (operations : List Operation) :
    (run.steps operations).editor.context =
      operations.foldl Operation.attached run.editor.context := by
  induction operations generalizing run with
  | nil => rfl
  | cons operation later ih =>
    refine (ih (run.step operation)).trans ?_
    rw [(run.editor_step operation).2.2]
    rfl

theorem Sound.serverRevision_le (sound : Sound run) {merged : Revision}
    (known : run.editor.validation.serverRevision = some merged) :
    merged ≤ run.editor.revision := by
  have server := sound.server
  cases last : run.log.merged? with
  | none =>
    rw [last] at server
    rw [ValidationState.serverRevision, server] at known
    cases known
  | some said =>
    obtain ⟨revision, response⟩ := said
    rw [last] at server
    obtain ⟨tree, -, there⟩ := server
    rw [ValidationState.serverRevision, there] at known
    cases known
    exact sound.merged_le last

/-- An edit that fails leaves no trace in what follows. -/
theorem steps_refused {intent : Intent} {supply : Nat} {error : EditError}
    (refused : run.editor.apply intent supply = .error error) (later : List Operation) :
    run.steps (.apply intent supply :: later) = run.steps later := by
  show (run.step (.apply intent supply)).steps later = _
  rw [step, refused]

/-- **The state of an editor, in every state of every run.** The revision counts the edits that
succeeded and the loads. The state of validation is about the current tree and its revision, and the
local errors are those of this tree, of the kind of root that was configured, in the context that
was attached last. The merged revision is at most the current one, and never replaced by an earlier
one. An edit that fails is as if it had not been tried, whatever comes after it. -/
theorem state_of_run (root : Node) (config : EditorConfig) (operations : List Operation) :
    let run := Run.of root config operations
    let editor := run.editor
    editor.revision = (Run.start root config).succeeded operations +
        operations.countP Operation.isLoad ∧
      editor.context = operations.foldl Operation.attached none ∧
      editor.validation.current = editor.revision ∧
      editor.validation.root = some editor.root ∧
      editor.validation.localErrors = editor.root.validateLocal config.rootKind editor.context ∧
      (∀ merged, editor.validation.serverRevision = some merged → merged ≤ editor.revision ∧
        ∀ later, ∃ latest, merged ≤ latest ∧
          (Run.of root config (operations ++ later)).editor.validation.serverRevision =
            some latest) ∧
      ∀ intent supply error, editor.apply intent supply = .error error → ∀ later,
        Run.of root config (operations ++ .apply intent supply :: later) =
          Run.of root config (operations ++ later) := by
  intro run editor
  have sound : Sound run := .of root config operations
  have kind : editor.config.rootKind = config.rootKind := rootKind_steps _ operations
  refine ⟨?_, context_steps _ operations, sound.current, sound.root, ?_, ?_, ?_⟩
  · have counted := revision_steps (Run.start root config) operations
    rwa [show (Run.start root config).editor.revision = 0 from rfl, Nat.zero_add] at counted
  · rw [← kind]
    exact sound.localErrors
  · intro merged known
    refine ⟨sound.serverRevision_le known, fun later => ?_⟩
    have kept : ((Run.of root config operations).steps later).MergedSince merged :=
      steps_induction MergedSince.step ⟨merged, known, Nat.le_refl merged⟩ later
    rw [of_append]
    exact kept.imp fun latest reached => ⟨reached.2, reached.1⟩
  · intro intent supply error refused later
    rw [of_append, of_append]
    exact steps_refused refused later

end Run

end RuleEditor
