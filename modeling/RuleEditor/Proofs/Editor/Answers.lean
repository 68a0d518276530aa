import Mathlib.Data.List.Basic
import RuleEditor.Proofs.Editor.Merging

/-!
# Requests and their answers

**Reading a log.** Which requests were made, which of them still wait, and how the others were
answered. A log is *orderly* when each answer is to a request that waits for one.

**Kept trees.** The tree that was sent for a revision is kept as long as no answer about that
revision comes, and none about a later one is merged. So a response is merged exactly when none
about a later revision has been, and its revision is the current one or has not been answered since
it was last requested. A revision that was requested once is never answered before its answer comes;
one that was requested twice is, and then the second response is lost.
-/

namespace RuleEditor

/-! ## Reading a log -/

namespace Log

/-- The revisions whose validation was requested, whether they could be sent or not. -/
def begun : Log → List Revision
  | [] => []
  | .requested revision :: older => revision :: begun older
  | .unsendable revision :: older => revision :: begun older
  | _ :: older => begun older

/-- The revisions of the requests that wait for an answer. -/
def awaited : Log → List Revision
  | [] => []
  | .requested revision :: older => revision :: awaited older
  | .answered revision _ _ :: older => (awaited older).erase revision
  | .failed revision :: older => (awaited older).erase revision
  | _ :: older => awaited older

/-- The answers that were responses, merged or not. -/
def responses : Log → List (Revision × Response)
  | [] => []
  | .answered revision response _ :: older => (revision, response) :: responses older
  | _ :: older => responses older

/-- The revisions of the requests that failed. One that cannot be sent fails at once. -/
def failures : Log → List Revision
  | [] => []
  | .unsendable revision :: older => revision :: failures older
  | .failed revision :: older => revision :: failures older
  | _ :: older => failures older

/-- Each answer is to a request that waits for one. -/
def Orderly : Log → Prop
  | [] => True
  | .answered revision _ _ :: older => revision ∈ awaited older ∧ Orderly older
  | .failed revision :: older => revision ∈ awaited older ∧ Orderly older
  | _ :: older => Orderly older

/-- No answer about a revision has come since its validation was last requested. -/
def Unanswered (revision : Revision) : Log → Prop
  | [] => False
  | .edited _ :: older => Unanswered revision older
  | .requested sent :: older => sent = revision ∨ Unanswered revision older
  | .unsendable sent :: older => sent ≠ revision ∧ Unanswered revision older
  | .answered sent _ _ :: older => sent ≠ revision ∧ Unanswered revision older
  | .failed sent :: older => sent ≠ revision ∧ Unanswered revision older

/-- **A request waits, or was answered by a response, or failed.** -/
theorem begun_perm {log : Log} (orderly : log.Orderly) :
    log.begun.Perm (log.awaited ++ (log.responses.map Prod.fst ++ log.failures)) := by
  induction log with
  | nil => exact .nil
  | cons event older ih =>
    cases event with
    | edited root => exact ih orderly
    | requested revision => exact (ih orderly).cons revision
    | unsendable revision =>
      refine ((ih orderly).cons revision).trans ?_
      simp only [awaited, responses, failures, ← List.append_assoc]
      exact List.perm_middle.symm
    | answered revision response merged =>
      obtain ⟨waiting, orderly⟩ := orderly
      refine (ih orderly).trans (((List.perm_cons_erase waiting).append_right _).trans ?_)
      exact List.perm_middle.symm
    | failed revision =>
      obtain ⟨waiting, orderly⟩ := orderly
      refine (ih orderly).trans (((List.perm_cons_erase waiting).append_right _).trans ?_)
      simp only [awaited, responses, failures, ← List.append_assoc]
      exact List.perm_middle.symm

theorem count_awaited_le {log : Log} (orderly : log.Orderly) (revision : Revision) :
    log.awaited.count revision ≤ log.begun.count revision := by
  rw [(begun_perm orderly).count_eq, List.count_append]
  exact Nat.le_add_right _ _

/-- Of a revision that was requested once, no second request waits. -/
theorem not_mem_erase_awaited {log : Log} {revision : Revision} (orderly : log.Orderly)
    (once : log.begun.count revision ≤ 1) : revision ∉ log.awaited.erase revision := by
  intro waiting
  have twice := List.count_pos_iff.2 waiting
  rw [List.count_erase_self] at twice
  have bound := Nat.le_trans (count_awaited_le orderly revision) once
  omega

/-- A request that waits, for a revision that was requested once, has not been answered. -/
theorem unanswered_of_awaited {log : Log} {revision : Revision} (orderly : log.Orderly)
    (waiting : revision ∈ log.awaited) (once : log.begun.count revision ≤ 1) :
    log.Unanswered revision := by
  induction log with
  | nil => cases waiting
  | cons event older ih =>
    cases event with
    | edited root => exact ih orderly waiting once
    | requested sent =>
      by_cases same : sent = revision
      · exact Or.inl same
      · have waiting : revision ∈ awaited older :=
          (List.mem_cons.1 waiting).resolve_left fun e => same e.symm
        have once : (begun older).count revision ≤ 1 := Nat.le_trans List.count_le_count_cons once
        exact Or.inr (ih orderly waiting once)
    | unsendable sent =>
      have earlier : Orderly older := orderly
      have fewer : (begun older).count revision ≤ 1 := Nat.le_trans List.count_le_count_cons once
      refine ⟨?_, ih earlier waiting fewer⟩
      rintro rfl
      have other : 0 < (begun older).count sent :=
        Nat.lt_of_lt_of_le (List.count_pos_iff.2 waiting) (count_awaited_le earlier sent)
      rw [begun, List.count_cons_self] at once
      omega
    | answered sent response merged =>
      obtain ⟨-, orderly⟩ := orderly
      refine ⟨?_, ih orderly (List.mem_of_mem_erase waiting) once⟩
      rintro rfl
      exact not_mem_erase_awaited orderly once waiting
    | failed sent =>
      obtain ⟨-, orderly⟩ := orderly
      refine ⟨?_, ih orderly (List.mem_of_mem_erase waiting) once⟩
      rintro rfl
      exact not_mem_erase_awaited orderly once waiting

end Log

namespace Run

/-! ## Kept trees -/

/-- The trees that are kept, apart from superseded ones, are those whose last request has not been
answered. -/
def Kept (run : Run) : Prop :=
  ∀ revision, run.editor.validation.isSuperseded revision = false →
    ((∃ tree, run.editor.validation.submitted.get? revision = some tree) ↔
      run.log.Unanswered revision)

variable {run next : Run}

theorem kept_requested (sound : Sound run) (kept : Kept run) :
    Kept (run.record (run.editor.validation.markPending run.editor.revision)
      (.requested run.editor.revision)) := by
  intro revision fresh
  show (∃ tree, (run.editor.validation.markPending run.editor.revision).submitted.get? revision =
    some tree) ↔ run.editor.revision = revision ∨ run.log.Unanswered revision
  rw [sound.submitted_markPending, ← kept revision fresh]
  simp only [Keyed.get?_insert]
  by_cases same : run.editor.revision = revision <;> simp [same]

/-- A failure takes away the tree of its revision. -/
theorem kept_failed (kept : Kept run) (revision : Revision) :
    Kept (run.record (run.editor.validation.recordFailure revision).2 (.failed revision)) := by
  intro other fresh
  rw [ValidationState.recordFailure_eq] at fresh ⊢
  show (∃ tree, (run.editor.validation.submitted.erase revision).get? other = some tree) ↔
    revision ≠ other ∧ run.log.Unanswered other
  rw [← kept other fresh]
  simp only [Keyed.get?_erase]
  by_cases same : revision = other <;> simp [same]

/-- An answer takes away the trees of its revision and of those before it. -/
theorem kept_merged (kept : Kept run) {revision : Revision} {response : Response} {tree : Node}
    (fresh : run.editor.validation.isSuperseded revision = false) :
    Kept (run.record (run.editor.validation.merge revision response tree)
      (.answered revision response true)) := by
  intro other later
  have bound : revision ≤ other := ValidationState.isSuperseded_eq_false_iff.1 later revision rfl
  have fresh : run.editor.validation.isSuperseded other = false := by
    rw [ValidationState.isSuperseded_eq_false_iff] at fresh ⊢
    exact fun merged known => Nat.le_trans (fresh merged known) bound
  show (∃ tree, (run.editor.validation.submitted.filter fun sent _ => revision < sent).get? other =
    some tree) ↔ revision ≠ other ∧ run.log.Unanswered other
  rw [← kept other fresh]
  simp only [Keyed.get?_filter, Option.filter_eq_some_iff, decide_eq_true_eq]
  constructor
  · rintro ⟨tree, found, after⟩
    exact ⟨Nat.ne_of_lt after, tree, found⟩
  · rintro ⟨ne, tree, found⟩
    exact ⟨tree, found, Nat.lt_of_le_of_ne bound ne⟩

/-- A response is dropped as unknown only when there is nothing to take away. -/
theorem kept_dropped (kept : Kept run) {revision : Revision} {response : Response}
    (unknown : run.editor.validation.isSuperseded revision = false →
      run.editor.validation.tree? revision = none) :
    Kept (run.record run.editor.validation (.answered revision response false)) := by
  intro other fresh
  show (∃ tree, run.editor.validation.submitted.get? other = some tree) ↔
    revision ≠ other ∧ run.log.Unanswered other
  rw [← kept other fresh]
  refine ⟨fun known => ⟨?_, known⟩, And.right⟩
  rintro rfl
  obtain ⟨tree, found⟩ := known
  have missing := unknown fresh
  rw [ValidationState.tree?, found] at missing
  cases missing

theorem Kept.step (h : Step run next) (sound : Sound run) (kept : Kept run) : Kept next := by
  cases h with
  | requested => exact kept_requested sound kept
  | unsendable =>
    -- A request that cannot be sent leaves what one that fails at once would leave.
    intro revision fresh
    have failed := kept_failed (kept_requested sound kept) run.editor.revision revision fresh
    exact failed.trans (and_congr_right fun other => or_iff_right other)
  | merged fresh known => exact kept_merged kept fresh
  | dropped unknown => exact kept_dropped kept unknown
  | failed revision => exact kept_failed kept revision
  | _ => exact kept

theorem Kept.start (root : Node) (config : EditorConfig) : Kept (Run.start root config) :=
  fun _ _ => ⟨fun ⟨_, found⟩ => (by cases found), False.elim⟩

theorem Kept.of (root : Node) (config : EditorConfig) (operations : List Operation) :
    Kept (Run.of root config operations) :=
  of_induction (fun h sound kept => kept.step h sound) (.start root config) operations

/-! ## Which responses are merged -/

/-- The tree of a revision is known while it is the current one or has not been answered. -/
theorem tree?_isSome_iff (sound : Sound run) (kept : Kept run) {revision : Revision}
    (fresh : run.editor.validation.isSuperseded revision = false) :
    (∃ tree, run.editor.validation.tree? revision = some tree) ↔
      revision = run.editor.revision ∨ run.log.Unanswered revision := by
  rw [← kept revision fresh, ValidationState.tree?, sound.root, sound.current]
  cases run.editor.validation.submitted.get? revision with
  | some sent => simp
  | none => by_cases now : revision = run.editor.revision <;> simp [now]

/-- **Which responses are merged.** In every state of every run, a response about a revision is
merged exactly when no response about a later revision has been, and the revision is the current one
or has not been answered since it was last requested. Then its annotations are the merged ones, and
otherwise nothing changes. Every awaited revision that was requested only once has not been
answered. -/
theorem acceptValidation_iff (root : Node) (config : EditorConfig) (operations : List Operation)
    (revision : Revision) (response : Response) :
    let run := Run.of root config operations
    let result := run.editor.acceptValidation revision response
    (result.1 = true ↔
      (∀ merged, run.editor.validation.serverRevision = some merged → merged ≤ revision) ∧
        (revision = run.editor.revision ∨ run.log.Unanswered revision)) ∧
    (result.1 = true → result.2.validation.serverRevision = some revision ∧
      result.2.validation.serverAnnotations = some response.annotations) ∧
    (result.1 = false → result.2 = run.editor) ∧
    (run.log.Orderly → revision ∈ run.log.awaited → run.log.begun.count revision = 1 →
      run.log.Unanswered revision) := by
  intro run result
  have sound : Sound run := .of root config operations
  have kept : Kept run := .of root config operations
  have once : run.log.Orderly → revision ∈ run.log.awaited → run.log.begun.count revision = 1 →
      run.log.Unanswered revision := by
    intro orderly waiting once
    exact Log.unanswered_of_awaited orderly waiting (Nat.le_of_eq once)
  rw [← ValidationState.isSuperseded_eq_false_iff]
  rcases run.editor.acceptValidation_cases revision response with
    ⟨tree, fresh, known, eq⟩ | ⟨unknown, eq⟩
  · have merged : result = _ := eq
    rw [merged]
    have there := (tree?_isSome_iff sound kept fresh).1 ⟨tree, known⟩
    exact ⟨iff_of_true rfl ⟨fresh, there⟩, fun _ => ⟨rfl, rfl⟩, nofun, once⟩
  · have dropped : result = _ := eq
    rw [dropped]
    refine ⟨iff_of_false Bool.false_ne_true ?_, nofun, fun _ => rfl, once⟩
    intro both
    obtain ⟨fresh, there⟩ := both
    obtain ⟨tree, known⟩ := (tree?_isSome_iff sound kept fresh).2 there
    rw [unknown fresh] at known
    cases known

/-- The validation of one revision is requested twice. When one request fails after an edit, the
tree of the other is gone, and the response to it is dropped although no other has been merged. -/
theorem response_to_second_request_dropped :
    let run := Run.of default .default
      [.beginValidation, .beginValidation, .load default, .validationFailed 0]
    run.log.Orderly ∧ 0 ∈ run.log.awaited ∧ run.editor.validation.serverRevision = none ∧
      (run.editor.acceptValidation 0 Response.empty).1 = false :=
  ⟨⟨List.mem_cons_self, trivial⟩, List.mem_cons_self, rfl, rfl⟩

end Run

end RuleEditor
