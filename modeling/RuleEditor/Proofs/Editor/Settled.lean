import RuleEditor.Proofs.Editor.Answers

/-!
# Settled runs

**Settled logs.** A log is *settled* when each answer was to a request that waited for one, no
revision was requested twice and no request waits any more.

**The invariant** (`Run.Remembered`). As long as no revision is requested twice, the state of
validation remembers of all requests the latest one, of all responses the one about the latest
revision, and of all failures that of the latest request.

**The outcome.** How a settled run ends depends on what the answers are and not on the order in
which they came.
-/

namespace RuleEditor

/-! ## Settled logs -/

namespace Log

/-- Each revision was requested once at most, and each request was answered once. -/
structure Settled (log : Log) : Prop where
  orderly : log.Orderly
  once : log.begun.Nodup
  answered : log.awaited = []

/-- Whether the latest revision that was requested is one whose request failed. -/
def lastFailed (log : Log) : Bool := log.begun.max?.any (log.failures.contains ·)

theorem mem_begun_of_response {log : Log} (orderly : log.Orderly) {revision : Revision}
    (answered : revision ∈ log.responses.map Prod.fst) : revision ∈ log.begun :=
  (begun_perm orderly).mem_iff.2 (List.mem_append_right _ (List.mem_append_left _ answered))

theorem mem_begun_of_failure {log : Log} (orderly : log.Orderly) {revision : Revision}
    (failed : revision ∈ log.failures) : revision ∈ log.begun :=
  (begun_perm orderly).mem_iff.2 (List.mem_append_right _ (List.mem_append_right _ failed))

/-- If no revision was requested twice, one that is awaited has neither been answered nor failed. -/
theorem not_mem_of_awaited {log : Log} (orderly : log.Orderly) (once : log.begun.Nodup)
    {revision : Revision} (waiting : revision ∈ log.awaited) :
    revision ∉ log.responses.map Prod.fst ∧ revision ∉ log.failures := by
  have nodup := (begun_perm orderly).nodup_iff.1 once
  have disjoint := (List.nodup_append.1 nodup).2.2 revision waiting revision
  exact ⟨fun answered => disjoint (List.mem_append_left _ answered) rfl,
    fun failed => disjoint (List.mem_append_right _ failed) rfl⟩

/-- In two settled logs with the same answers the same requests were made. -/
theorem begun_perm_of_answers {log other : Log} (settled : log.Settled) (settled' : other.Settled)
    (responses : log.responses.Perm other.responses) (failures : log.failures.Perm other.failures) :
    log.begun.Perm other.begun := by
  have all := begun_perm settled.orderly
  have all' := begun_perm settled'.orderly
  rw [settled.answered] at all
  rw [settled'.answered] at all'
  exact (all.trans ((responses.map _).append failures)).trans all'.symm

theorem lastFailed_congr {log other : Log} (settled : log.Settled) (settled' : other.Settled)
    (responses : log.responses.Perm other.responses) (failures : log.failures.Perm other.failures) :
    log.lastFailed = other.lastFailed := by
  have begun := begun_perm_of_answers settled settled' responses failures
  have contains : log.failures.contains = other.failures.contains := by
    funext revision
    rw [Bool.eq_iff_iff, List.contains_iff_mem, List.contains_iff_mem]
    exact failures.mem_iff
  rw [lastFailed, lastFailed, ValidationState.max?_eq_of_perm begun, contains]

end Log

namespace Run

variable {run next : Run}

/-! ## The invariant -/

/-- What the state of validation remembers of requests and answers. -/
structure Remembered (run : Run) : Prop where
  requested : run.editor.validation.requested = run.log.begun.max?
  reached : ∀ revision ∈ run.log.begun, revision ≤ run.editor.revision
  server : run.editor.validation.serverRevision = (run.log.responses.map Prod.fst).max?
  annotations : ∀ revision response, (revision, response) ∈ run.log.responses →
    run.editor.validation.serverRevision = some revision →
      run.editor.validation.serverAnnotations = some response.annotations
  failed : ∀ revision, run.editor.validation.failed = some revision → revision ∈ run.log.failures
  last : ∀ revision ∈ run.log.failures, run.log.begun.max? = some revision →
    ∃ failed, run.editor.validation.failed = some failed ∧ revision ≤ failed

namespace Remembered

variable {revision : Revision} {response : Response}

theorem server_mem (memory : Remembered run) {merged : Revision}
    (known : run.editor.validation.serverRevision = some merged) :
    merged ∈ run.log.responses.map Prod.fst := by
  rw [memory.server] at known
  exact (List.max?_eq_some_iff.1 known).1

/-- The failure of the latest request matters, as long as it has not been answered. -/
theorem isMoot_eq_false (memory : Remembered run) (orderly : run.log.Orderly)
    (unmerged : revision ∉ run.log.responses.map Prod.fst)
    (last : run.log.begun.max? = some revision) :
    run.editor.validation.isMoot revision = false := by
  rw [Bool.eq_false_iff, Ne, ValidationState.isMoot_eq_true_iff, memory.requested, last]
  intro moot
  rcases moot with ⟨merged, there, after⟩ | ⟨sent, eq, after⟩
  · have answered := memory.server_mem there
    have before := (List.max?_eq_some_iff.1 last).2 _ (Log.mem_begun_of_response orderly answered)
    exact unmerged (Nat.le_antisymm after before ▸ answered)
  · exact Nat.ne_of_lt after (Option.some.inj eq)

theorem edited (memory : Remembered run) (root : Node) :
    Remembered (run.edited (run.editor.advance root)) :=
  { memory with
    reached := fun revision begun => Nat.le_succ_of_le (memory.reached revision begun) }

theorem beginning (memory : Remembered run) (orderly : run.log.Orderly)
    (once : run.editor.revision ∉ run.log.begun) :
    Remembered (run.record (run.editor.validation.markPending run.editor.revision)
      (.requested run.editor.revision)) :=
  { memory with
    requested := ValidationState.requested_markPending memory.requested run.editor.revision
    reached := List.forall_mem_cons.2 ⟨Nat.le_refl _, memory.reached⟩
    last := by
      intro revision failed last
      -- The revision is the last one requested, which is new, so it has not failed.
      exfalso
      have begun : revision ∈ run.log.begun := Log.mem_begun_of_failure orderly failed
      have bound := (List.max?_eq_some_iff.1 last).2 _ List.mem_cons_self
      have same := Nat.le_antisymm bound (memory.reached revision begun)
      exact once (same ▸ begun) }

theorem failing (memory : Remembered run) (orderly : run.log.Orderly)
    (once : run.log.begun.Nodup) (waiting : revision ∈ run.log.awaited) :
    Remembered (run.record (run.editor.validation.recordFailure revision).2 (.failed revision)) := by
  obtain ⟨unmerged, -⟩ := Log.not_mem_of_awaited orderly once waiting
  rw [ValidationState.recordFailure_eq]
  exact { memory with
    failed := by
      intro known eq
      rcases ValidationState.eq_or_of_failedAfter eq with rfl | before
      · exact List.mem_cons_self
      · exact List.mem_cons_of_mem _ (memory.failed known before)
    last := by
      intro known failed last
      rcases List.mem_cons.1 failed with rfl | before
      · have matters := memory.isMoot_eq_false orderly unmerged last
        exact ValidationState.exists_failedAfter_of_not_moot matters
      · exact ValidationState.exists_failedAfter_of_failed (memory.last known before last) }

theorem merging {tree : Node} (memory : Remembered run) (orderly : run.log.Orderly)
    (once : run.log.begun.Nodup) (waiting : revision ∈ run.log.awaited)
    (fresh : run.editor.validation.isSuperseded revision = false) :
    Remembered (run.record (run.editor.validation.merge revision response tree)
      (.answered revision response true)) := by
  obtain ⟨unmerged, unfailed⟩ := Log.not_mem_of_awaited orderly once waiting
  rw [ValidationState.isSuperseded_eq_false_iff, memory.server] at fresh
  exact {
    requested := memory.requested
    reached := memory.reached
    server := by
      show some revision = (revision :: run.log.responses.map Prod.fst).max?
      rw [ValidationState.max?_cons_eq_later, ValidationState.later_eq_self fresh]
    annotations := by
      rintro other reported (_ | ⟨_, before⟩) eq
      · rfl
      · cases eq
        exact absurd (List.mem_map_of_mem before) unmerged
    failed := fun known eq => memory.failed known (Option.filter_eq_some_iff.1 eq).1
    last := by
      intro known failed last
      obtain ⟨latest, eq, bound⟩ := memory.last known failed last
      have begun : revision ∈ run.log.begun :=
        (Log.begun_perm orderly).mem_iff.2 (List.mem_append_left _ waiting)
      have before : revision ≤ latest :=
        Nat.le_trans ((List.max?_eq_some_iff.1 last).2 revision begun) bound
      have ne : revision ≠ latest := by
        intro same
        rw [same] at unfailed
        exact unfailed (memory.failed latest eq)
      refine ⟨latest, Option.filter_eq_some_iff.2 ⟨eq, ?_⟩, bound⟩
      exact decide_eq_true (Nat.lt_of_le_of_ne before ne) }

theorem dropping (memory : Remembered run)
    (superseded : run.editor.validation.isSuperseded revision = true) :
    Remembered (run.record run.editor.validation (.answered revision response false)) := by
  obtain ⟨merged, there, after⟩ := ValidationState.isSuperseded_eq_true_iff.1 superseded
  exact { memory with
    server := by
      show run.editor.validation.serverRevision = (revision :: run.log.responses.map Prod.fst).max?
      rw [ValidationState.max?_cons_eq_later, ← memory.server, there]
      exact congrArg some (Nat.max_eq_left (Nat.le_of_lt after)).symm
    annotations := by
      rintro other reported (_ | ⟨_, before⟩) eq
      · have same := Option.some.inj (there.symm.trans eq)
        exact absurd same (Nat.ne_of_gt after)
      · exact memory.annotations other reported before eq }

theorem step (h : Step run next) (sound : Sound run) (kept : Kept run)
    (memory : run.log.Orderly → run.log.begun.Nodup → Remembered run)
    (orderly : next.log.Orderly) (once : next.log.begun.Nodup) : Remembered next := by
  cases h with
  | refused => exact memory orderly once
  | edited root => exact (memory orderly once).edited root
  | context context => exact { memory orderly once with }
  | mode mode => exact { memory orderly once with }
  | requested =>
    obtain ⟨new, once⟩ := List.nodup_cons.1 once
    exact (memory orderly once).beginning orderly new
  | unsendable =>
    have orderly : run.log.Orderly := orderly
    obtain ⟨new, earlier⟩ := List.nodup_cons.1 once
    have begun := (memory orderly earlier).beginning orderly new
    exact { begun.failing orderly once List.mem_cons_self with }
  | merged fresh known =>
    obtain ⟨waiting, orderly⟩ := orderly
    exact (memory orderly once).merging orderly once waiting fresh
  | @dropped revision response unknown =>
    obtain ⟨waiting, orderly⟩ := orderly
    refine (memory orderly once).dropping ?_
    cases superseded : run.editor.validation.isSuperseded revision with
    | true => rfl
    | false =>
      -- The tree of a request that waits is there, so nothing is dropped as unknown.
      have unanswered := Log.unanswered_of_awaited orderly waiting
        (List.nodup_iff_count.1 once revision)
      obtain ⟨tree, known⟩ := (tree?_isSome_iff sound kept superseded).2 (Or.inr unanswered)
      rw [unknown superseded] at known
      cases known
  | failed revision =>
    obtain ⟨waiting, orderly⟩ := orderly
    exact (memory orderly once).failing orderly once waiting

theorem start (root : Node) (config : EditorConfig) : Remembered (Run.start root config) where
  requested := rfl
  reached := nofun
  server := rfl
  annotations := nofun
  failed := nofun
  last := nofun

theorem of (root : Node) (config : EditorConfig) (operations : List Operation)
    (orderly : (Run.of root config operations).log.Orderly)
    (once : (Run.of root config operations).log.begun.Nodup) :
    Remembered (Run.of root config operations) := by
  -- An orderly run was orderly all the time, and knew the tree of each request that waited.
  have start : Kept (Run.start root config) ∧ ((Run.start root config).log.Orderly →
      (Run.start root config).log.begun.Nodup → Remembered (Run.start root config)) :=
    ⟨.start root config, fun _ _ => .start root config⟩
  refine (of_induction (P := fun run => Kept run ∧
    (run.log.Orderly → run.log.begun.Nodup → Remembered run)) ?_ start operations).2 orderly once
  intro run next h sound both
  obtain ⟨kept, memory⟩ := both
  exact ⟨kept.step h sound, step h sound kept memory⟩

/-- Each merged annotation comes from the response about the merged revision. -/
theorem serverAnnotations_eq_some_iff (memory : Remembered run) {annotations : Annotations} :
    run.editor.validation.serverAnnotations = some annotations ↔
      ∃ revision response, (revision, response) ∈ run.log.responses ∧
        run.editor.validation.serverRevision = some revision ∧
          response.annotations = annotations := by
  constructor
  · intro there
    obtain ⟨merged, server, -⟩ := Option.map_eq_some_iff.1 there
    have known : run.editor.validation.serverRevision = some merged.revision :=
      congrArg (Option.map _) server
    obtain ⟨⟨revision, response⟩, answered, rfl⟩ := List.mem_map.1 (memory.server_mem known)
    have same := memory.annotations _ _ answered known
    exact ⟨_, response, answered, known, Option.some.inj (same.symm.trans there)⟩
  · intro there
    obtain ⟨revision, response, answered, known, rfl⟩ := there
    exact memory.annotations revision response answered known

/-- When no request waits, the last one was answered or failed. -/
theorem status_eq (memory : Remembered run) (sound : Sound run) (settled : run.log.Settled) :
    run.editor.status =
      if run.editor.validation.serverRevision = some run.editor.revision then .validated
      else if run.log.lastFailed then .failed
      else .idle := by
  rw [Editor.status, ValidationState.status, sound.current, memory.requested, Log.lastFailed]
  refine if_congr Iff.rfl rfl ?_
  cases last : run.log.begun.max? with
  | none => rfl
  | some revision =>
    obtain ⟨begun, bound⟩ := List.max?_eq_some_iff.1 last
    by_cases failed : revision ∈ run.log.failures
    · obtain ⟨latest, eq, after⟩ := memory.last revision failed last
      simp [failed, eq, after]
    · have unfailed : run.editor.validation.failed.any (revision ≤ ·) = false := by
        cases eq : run.editor.validation.failed with
        | none => rfl
        | some latest =>
          -- The only failure that could be so late is that of the last request itself.
          have late := memory.failed latest eq
          have ne : latest ≠ revision := by
            intro same
            rw [← same] at failed
            exact failed late
          have before := bound latest (Log.mem_begun_of_failure settled.orderly late)
          exact decide_eq_false (Nat.not_le_of_gt (Nat.lt_of_le_of_ne before ne))
      have answered : revision ∈ run.log.responses.map Prod.fst := by
        have answers := (Log.begun_perm settled.orderly).mem_iff.1 begun
        rw [settled.answered, List.nil_append, List.mem_append] at answers
        exact answers.resolve_right failed
      have merged : run.editor.validation.serverRevision.any (revision ≤ ·) = true := by
        obtain ⟨merged, known⟩ := Option.isSome_iff_exists.1 (List.isSome_max?_of_mem answered)
        rw [memory.server, known]
        exact decide_eq_true ((List.max?_eq_some_iff.1 known).2 revision answered)
      simp [failed, unfailed, merged]

end Remembered

/-! ## The outcome -/

/-- **How a settled run ends.** The merged revision is the latest one that was answered by a
response, and the merged annotations are those of that response. Validation has validated the
current tree if this is its revision, has failed if the request for the latest revision failed, and
is idle otherwise. So the order in which the answers came does not matter: two settled runs that end
at the same revision after the same answers know the same and have the same status. -/
theorem settled_outcome (root : Node) (config : EditorConfig) (operations : List Operation)
    (settled : (Run.of root config operations).log.Settled) :
    let run := Run.of root config operations
    run.editor.validation.serverRevision = (run.log.responses.map Prod.fst).max? ∧
    (∀ annotations, run.editor.validation.serverAnnotations = some annotations ↔
      ∃ revision response, (revision, response) ∈ run.log.responses ∧
        run.editor.validation.serverRevision = some revision ∧
          response.annotations = annotations) ∧
    (run.editor.status =
      if run.editor.validation.serverRevision = some run.editor.revision then .validated
      else if run.log.lastFailed then .failed
      else .idle) ∧
    ∀ (root' : Node) (config' : EditorConfig) (operations' : List Operation),
      let other := Run.of root' config' operations'
      other.log.Settled → run.log.responses.Perm other.log.responses →
        run.log.failures.Perm other.log.failures → run.editor.revision = other.editor.revision →
          run.editor.validation.serverRevision = other.editor.validation.serverRevision ∧
          run.editor.validation.serverAnnotations = other.editor.validation.serverAnnotations ∧
          run.editor.status = other.editor.status := by
  intro run
  have memory : Remembered run := .of root config operations settled.orderly settled.once
  have sound : Sound run := .of root config operations
  refine ⟨memory.server, fun _ => memory.serverAnnotations_eq_some_iff,
    memory.status_eq sound settled, ?_⟩
  intro root' config' operations' other settled' responses failures now
  have memory' : Remembered other := .of root' config' operations' settled'.orderly settled'.once
  have sound' : Sound other := .of root' config' operations'
  have server : run.editor.validation.serverRevision = other.editor.validation.serverRevision := by
    rw [memory.server, memory'.server]
    exact ValidationState.max?_eq_of_perm (responses.map Prod.fst)
  refine ⟨server, Option.ext fun annotations => ?_, ?_⟩
  · rw [memory.serverAnnotations_eq_some_iff, memory'.serverAnnotations_eq_some_iff, server]
    simp only [responses.mem_iff]
  · rw [memory.status_eq sound settled, memory'.status_eq sound' settled', server, now,
      Log.lastFailed_congr settled settled' responses failures]

/-- Three revisions are requested. Whichever order the answers to them come in, the response about
the second one is what remains, and the failure of the third one shows. -/
theorem settled_outcome_of_three_requests :
    let requests : List Operation :=
      [.beginValidation, .load default, .beginValidation, .load default, .beginValidation]
    let forwards := Run.of default .default (requests ++
      [.acceptValidation 0 Response.empty, .acceptValidation 1 Response.empty, .validationFailed 2])
    let backwards := Run.of default .default (requests ++
      [.validationFailed 2, .acceptValidation 1 Response.empty, .acceptValidation 0 Response.empty])
    forwards.log.Settled ∧ backwards.log.Settled ∧
      forwards.editor.validation.serverRevision = some 1 ∧ forwards.editor.status = .failed ∧
      backwards.editor.validation.serverRevision = some 1 ∧ backwards.editor.status = .failed := by
  intro requests forwards backwards
  have settled : forwards.log.Settled :=
    ⟨⟨by decide, by decide, by decide, trivial⟩, by decide, rfl⟩
  have settled' : backwards.log.Settled :=
    ⟨⟨by decide, by decide, by decide, trivial⟩, by decide, rfl⟩
  obtain ⟨server, -, status, same⟩ := settled_outcome default .default _ settled
  obtain ⟨server', -, status'⟩ :=
    same default .default _ settled' (.swap _ _ _) (.refl _) rfl
  exact ⟨settled, settled', server, status, server'.symm.trans server, status'.symm.trans status⟩

end Run

end RuleEditor
