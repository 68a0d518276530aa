import RuleEditor.Proofs.Editor.Settled

/-!
# The current revision in a run

**Repeated requests.** The validation of one revision may be requested any number of times, and what
becomes of the requests may differ: some are answered, some fail, in any order.

**The invariant** (`Run.Latest`). A response about the current revision is merged whatever came
before it, and stays merged until the next edit. A failure of the current revision is recorded
unless there is such a response, and is not forgotten before there is one.

**The outcome.** Once the validation of the current revision has been requested and no request for
it waits any more, the current tree is validated if one of these requests was answered by a
response, and validation has failed otherwise.
-/

namespace RuleEditor.Run

variable {run next : Run}

/-- What the state of validation knows of the requests for the current revision. -/
structure Latest (run : Run) : Prop where
  requested : run.editor.validation.requested = run.log.begun.max?
  reached : ∀ revision ∈ run.log.begun, revision ≤ run.editor.revision
  server : ∀ merged, run.editor.validation.serverRevision = some merged →
    merged ∈ run.log.responses.map Prod.fst
  merged : run.editor.revision ∈ run.log.responses.map Prod.fst →
    run.editor.validation.serverRevision = some run.editor.revision
  failed : run.editor.revision ∈ run.log.failures →
    run.editor.validation.serverRevision = some run.editor.revision ∨
      ∃ latest, run.editor.validation.failed = some latest ∧ run.editor.revision ≤ latest

namespace Latest

variable {revision : Revision} {response : Response}

theorem server_le (latest : Latest run) (orderly : run.log.Orderly) {merged : Revision}
    (known : run.editor.validation.serverRevision = some merged) : merged ≤ run.editor.revision :=
  latest.reached merged (Log.mem_begun_of_response orderly (latest.server merged known))

theorem awaited_le (latest : Latest run) (orderly : run.log.Orderly)
    (waiting : revision ∈ run.log.awaited) : revision ≤ run.editor.revision :=
  latest.reached revision ((Log.begun_perm orderly).mem_iff.2 (List.mem_append_left _ waiting))

/-- A failure of the current revision is moot only if a response about it has been merged. -/
theorem server_of_isMoot (latest : Latest run) (orderly : run.log.Orderly)
    (moot : run.editor.validation.isMoot run.editor.revision = true) :
    run.editor.validation.serverRevision = some run.editor.revision := by
  rcases ValidationState.isMoot_eq_true_iff.1 moot with ⟨merged, known, after⟩ | ⟨sent, last, after⟩
  · rw [known, Nat.le_antisymm (latest.server_le orderly known) after]
  · rw [latest.requested] at last
    have before := latest.reached sent (List.max?_eq_some_iff.1 last).1
    exact absurd after (Nat.not_lt_of_ge before)

/-! ## Steps -/

/-- Nothing is known yet about a revision that is new. -/
theorem edited (latest : Latest run) (orderly : run.log.Orderly) (root : Node) :
    Latest (run.edited (run.editor.advance root)) := by
  have new : run.editor.revision + 1 ∉ run.log.begun := fun begun =>
    Nat.not_succ_le_self _ (latest.reached _ begun)
  exact { latest with
    reached := fun revision begun => Nat.le_succ_of_le (latest.reached revision begun)
    merged := fun answered => absurd (Log.mem_begun_of_response orderly answered) new
    failed := fun failed => absurd (Log.mem_begun_of_failure orderly failed) new }

theorem requesting (latest : Latest run) :
    Latest (run.record (run.editor.validation.markPending run.editor.revision)
      (.requested run.editor.revision)) :=
  { latest with
    requested := ValidationState.requested_markPending latest.requested run.editor.revision
    reached := List.forall_mem_cons.2 ⟨Nat.le_refl _, latest.reached⟩ }

theorem failing (latest : Latest run) (orderly : run.log.Orderly) (revision : Revision) :
    Latest (run.record (run.editor.validation.recordFailure revision).2 (.failed revision)) := by
  rw [ValidationState.recordFailure_eq]
  exact { latest with
    failed := by
      intro failed
      rcases List.mem_cons.1 failed with now | before
      · obtain rfl : revision = run.editor.revision := now.symm
        cases moot : run.editor.validation.isMoot run.editor.revision with
        | true => exact Or.inl (latest.server_of_isMoot orderly moot)
        | false => exact Or.inr (ValidationState.exists_failedAfter_of_not_moot moot)
      · have recorded := latest.failed before
        exact recorded.imp_right ValidationState.exists_failedAfter_of_failed }

/-- A response that is merged over the one about the current revision is about this revision too. -/
theorem merging {tree : Node} (latest : Latest run) (orderly : run.log.Orderly)
    (waiting : revision ∈ run.log.awaited)
    (fresh : run.editor.validation.isSuperseded revision = false) :
    Latest (run.record (run.editor.validation.merge revision response tree)
      (.answered revision response true)) := by
  have bound : revision ≤ run.editor.revision := latest.awaited_le orderly waiting
  have again : run.editor.validation.serverRevision = some run.editor.revision →
      some revision = some run.editor.revision := by
    intro known
    have after := ValidationState.isSuperseded_eq_false_iff.1 fresh _ known
    rw [Nat.le_antisymm bound after]
  exact {
    requested := latest.requested
    reached := latest.reached
    server := by
      rintro merged ⟨⟩
      exact List.mem_cons_self
    merged := by
      intro answered
      rcases List.mem_cons.1 answered with now | before
      · exact congrArg some now.symm
      · exact again (latest.merged before)
    failed := by
      intro failed
      rcases latest.failed failed with known | ⟨last, known, after⟩
      · exact Or.inl (again known)
      · rcases Nat.lt_or_ge revision last with later | earlier
        · refine Or.inr ⟨last, ?_, after⟩
          exact Option.filter_eq_some_iff.2 ⟨known, decide_eq_true later⟩
        · have now := Nat.le_antisymm bound (Nat.le_trans after earlier)
          exact Or.inl (congrArg some now) }

/-- The tree of the current revision is always known, so a response about it is not dropped. -/
theorem dropping (latest : Latest run) (sound : Sound run) (orderly : run.log.Orderly)
    (unknown : run.editor.validation.isSuperseded revision = false →
      run.editor.validation.tree? revision = none) :
    Latest (run.record run.editor.validation (.answered revision response false)) := by
  have other : run.editor.revision ≠ revision := by
    rintro rfl
    have fresh : run.editor.validation.isSuperseded run.editor.revision = false :=
      ValidationState.isSuperseded_eq_false_iff.2 fun merged known =>
        latest.server_le orderly known
    have missing := unknown fresh
    rw [ValidationState.tree?, sound.root, sound.current, if_pos rfl] at missing
    split at missing <;> cases missing
  exact { latest with
    server := fun merged known => List.mem_cons_of_mem _ (latest.server merged known)
    merged := fun answered => latest.merged ((List.mem_cons.1 answered).resolve_left other) }

theorem step (h : Step run next) (sound : Sound run) (latest : run.log.Orderly → Latest run)
    (orderly : next.log.Orderly) : Latest next := by
  cases h with
  | refused => exact latest orderly
  | edited root => exact (latest orderly).edited orderly root
  | context context => exact { latest orderly with }
  | mode mode => exact { latest orderly with }
  | requested => exact (latest orderly).requesting
  | unsendable =>
    have orderly : run.log.Orderly := orderly
    exact { (latest orderly).requesting.failing orderly run.editor.revision with }
  | merged fresh known =>
    obtain ⟨waiting, orderly⟩ := orderly
    exact (latest orderly).merging orderly waiting fresh
  | dropped unknown =>
    obtain ⟨waiting, orderly⟩ := orderly
    exact (latest orderly).dropping sound orderly unknown
  | failed revision =>
    obtain ⟨waiting, orderly⟩ := orderly
    exact (latest orderly).failing orderly revision

theorem start (root : Node) (config : EditorConfig) : Latest (Run.start root config) where
  requested := rfl
  reached := nofun
  server := nofun
  merged := nofun
  failed := nofun

theorem of (root : Node) (config : EditorConfig) (operations : List Operation)
    (orderly : (Run.of root config operations).log.Orderly) :
    Latest (Run.of root config operations) :=
  of_induction (P := fun run => run.log.Orderly → Latest run)
    (fun h sound latest => step h sound latest) (fun _ => .start root config) operations orderly

/-! ## The outcome -/

theorem status_of_response (latest : Latest run) (sound : Sound run)
    (answered : run.editor.revision ∈ run.log.responses.map Prod.fst) :
    run.editor.status = .validated := by
  rw [Editor.status, ValidationState.status, sound.current, if_pos (latest.merged answered)]

/-- When every request for the current revision failed, so has validation. -/
theorem status_of_failures (latest : Latest run) (sound : Sound run) (orderly : run.log.Orderly)
    (unanswered : run.editor.revision ∉ run.log.responses.map Prod.fst)
    (begun : run.editor.revision ∈ run.log.begun)
    (settled : run.editor.revision ∉ run.log.awaited) : run.editor.status = .failed := by
  have unmerged : run.editor.validation.serverRevision ≠ some run.editor.revision :=
    fun known => unanswered (latest.server _ known)
  have last : run.editor.validation.requested = some run.editor.revision := by
    rw [latest.requested, List.max?_eq_some_iff]
    exact ⟨begun, latest.reached⟩
  have failed : run.editor.revision ∈ run.log.failures := by
    have answers := (Log.begun_perm orderly).mem_iff.1 begun
    rw [List.mem_append, List.mem_append] at answers
    exact (answers.resolve_left settled).resolve_left unanswered
  obtain ⟨recorded, known, after⟩ := (latest.failed failed).resolve_left unmerged
  rw [Editor.status, ValidationState.status, sound.current, if_neg unmerged, last]
  simp [known, after]

end Latest

end RuleEditor.Run
