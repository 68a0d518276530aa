import RuleEditor.Proofs.Editor.Settled

/-!
# Requests in flight

**What is shown.** While no response about a requested tree or a later one has been merged,
validation is pending or has failed. It has failed exactly if a failure of the latest requested
revision, or of a later one, was ever reported.

**The invariant** (`Run.Noted`). The state of validation notes the latest request, and every failure
that is not older than it, until a response about that revision or a later one is merged. It does
not note when a request is repeated. So a request that is made again after it failed is in flight while
validation is still said to have failed.
-/

namespace RuleEditor.Run

variable {run next : Run} {revision : Revision}

/-- What the state of validation notes of requests and failures, whoever reports them. -/
structure Noted (run : Run) : Prop where
  requested : run.editor.validation.requested = run.log.begun.max?
  reached : ∀ revision ∈ run.log.begun, revision ≤ run.editor.revision
  failed : ∀ revision, run.editor.validation.failed = some revision → revision ∈ run.log.failures
  recorded : ∀ revision ∈ run.log.failures, (∀ begun ∈ run.log.begun, begun ≤ revision) →
    (∃ merged, run.editor.validation.serverRevision = some merged ∧ revision ≤ merged) ∨
      ∃ latest, run.editor.validation.failed = some latest ∧ revision ≤ latest

namespace Noted

/-! ## Steps -/

theorem requesting (noted : Noted run) :
    Noted (run.record (run.editor.validation.markPending run.editor.revision)
      (.requested run.editor.revision)) :=
  { noted with
    requested := ValidationState.requested_markPending noted.requested run.editor.revision
    reached := List.forall_mem_cons.2 ⟨Nat.le_refl _, noted.reached⟩
    recorded := fun revision failed last =>
      noted.recorded revision failed (List.forall_mem_cons.1 last).2 }

theorem failing (noted : Noted run) (revision : Revision) :
    Noted (run.record (run.editor.validation.recordFailure revision).2 (.failed revision)) := by
  rw [ValidationState.recordFailure_eq]
  exact { noted with
    failed := by
      intro known eq
      rcases ValidationState.eq_or_of_failedAfter eq with rfl | before
      · exact List.mem_cons_self
      · exact List.mem_cons_of_mem _ (noted.failed known before)
    recorded := by
      intro known failed last
      rcases List.mem_cons.1 failed with rfl | before
      · cases moot : run.editor.validation.isMoot known with
        | false => exact Or.inr (ValidationState.exists_failedAfter_of_not_moot moot)
        | true =>
          rcases ValidationState.isMoot_eq_true_iff.1 moot with merged | ⟨sent, eq, after⟩
          · exact Or.inl merged
          · rw [noted.requested] at eq
            have before := last sent (List.max?_eq_some_iff.1 eq).1
            exact absurd after (Nat.not_lt_of_ge before)
      · have known := noted.recorded known before last
        exact known.imp_right ValidationState.exists_failedAfter_of_failed }

/-- A response takes the place of the failures of its revision and of those before it. -/
theorem merging {response : Response} {tree : Node} (noted : Noted run)
    (fresh : run.editor.validation.isSuperseded revision = false) :
    Noted (run.record (run.editor.validation.merge revision response tree)
      (.answered revision response true)) :=
  { requested := noted.requested
    reached := noted.reached
    failed := fun known eq => noted.failed known (Option.filter_eq_some_iff.1 eq).1
    recorded := by
      intro known failed last
      rcases noted.recorded known failed last with ⟨merged, there, bound⟩ | ⟨latest, eq, bound⟩
      · have after := ValidationState.isSuperseded_eq_false_iff.1 fresh merged there
        exact Or.inl ⟨revision, rfl, Nat.le_trans bound after⟩
      · by_cases later : revision < latest
        · refine Or.inr ⟨latest, ?_, bound⟩
          exact Option.filter_eq_some_iff.2 ⟨eq, decide_eq_true later⟩
        · exact Or.inl ⟨revision, rfl, Nat.le_trans bound (Nat.le_of_not_lt later)⟩ }

theorem step (h : Step run next) (noted : Noted run) : Noted next := by
  cases h with
  | edited root =>
    exact { noted with
      reached := fun revision begun => Nat.le_succ_of_le (noted.reached revision begun) }
  | requested => exact noted.requesting
  | unsendable => exact { noted.requesting.failing run.editor.revision with }
  | merged fresh known => exact noted.merging fresh
  | failed revision => exact noted.failing revision
  | _ => exact { noted with }

theorem of (root : Node) (config : EditorConfig) (operations : List Operation) :
    Noted (Run.of root config operations) :=
  steps_induction (fun h noted => noted.step h) ⟨rfl, nofun, nofun, nofun⟩ operations

/-! ## The status -/

/-- The status while what was requested has not been merged. -/
theorem status_eq (noted : Noted run) (sound : Sound run) (begun : revision ∈ run.log.begun)
    (unmerged : ∀ merged, run.editor.validation.serverRevision = some merged → merged < revision) :
    ∃ last ∈ run.log.begun, revision ≤ last ∧ (∀ begun ∈ run.log.begun, begun ≤ last) ∧
      run.editor.status =
        if run.editor.validation.failed.any (last ≤ ·) then .failed else .pending := by
  obtain ⟨last, known⟩ := Option.isSome_iff_exists.1 (List.isSome_max?_of_mem begun)
  obtain ⟨mem, bound⟩ := List.max?_eq_some_iff.1 known
  refine ⟨last, mem, bound revision begun, bound, ?_⟩
  have older : run.editor.validation.serverRevision ≠ some run.editor.revision := fun now =>
    Nat.not_lt_of_ge (noted.reached revision begun) (unmerged _ now)
  have waiting : run.editor.validation.serverRevision.any (last ≤ ·) = false := by
    cases there : run.editor.validation.serverRevision with
    | none => rfl
    | some merged =>
      have before := Nat.lt_of_lt_of_le (unmerged merged there) (bound revision begun)
      exact decide_eq_false (Nat.not_le_of_gt before)
  rw [Editor.status, ValidationState.status, sound.current, if_neg older, noted.requested, known]
  simp [waiting]

end Noted

/-- **What is shown while a request is in flight.** In every state of every run, take a revision
that was requested and has not been merged, and neither has a later one. Then validation is pending or
has failed. It has failed exactly if some failure was ever reported that is not older than all
requests. When answers come only to requests that wait for one, and no later revision has been
requested, it is pending exactly if no request for this revision ever failed: not even one that has
been made again. -/
theorem status_of_begun (root : Node) (config : EditorConfig) (operations : List Operation)
    (revision : Revision) (begun : revision ∈ (Run.of root config operations).log.begun)
    (unmerged : ∀ merged,
      (Run.of root config operations).editor.validation.serverRevision = some merged →
        merged < revision) :
    let run := Run.of root config operations
    (run.editor.status = .pending ∨ run.editor.status = .failed) ∧
    (run.editor.status = .failed ↔
      ∃ failed ∈ run.log.failures, ∀ begun ∈ run.log.begun, begun ≤ failed) ∧
    (run.log.Orderly → (∀ begun ∈ run.log.begun, begun ≤ revision) →
      (run.editor.status = .pending ↔ revision ∉ run.log.failures)) := by
  intro run
  have noted : Noted run := .of root config operations
  have sound : Sound run := .of root config operations
  obtain ⟨last, mem, after, bound, status⟩ := noted.status_eq sound begun unmerged
  have either : run.editor.status = .pending ∨ run.editor.status = .failed := by
    rw [status]
    split
    · exact Or.inr rfl
    · exact Or.inl rfl
  have failed : run.editor.status = .failed ↔
      ∃ failed ∈ run.log.failures, ∀ begun ∈ run.log.begun, begun ≤ failed := by
    rw [status]
    constructor
    · intro shown
      split at shown
      · next any =>
        obtain ⟨failed, known, late⟩ := (Option.any_eq_true _ _).1 any
        have late : last ≤ failed := of_decide_eq_true late
        exact ⟨failed, noted.failed failed known, fun other begun =>
          Nat.le_trans (bound other begun) late⟩
      · cases shown
    · rintro ⟨failed, reported, late⟩
      rcases noted.recorded failed reported late with
        ⟨merged, there, beyond⟩ | ⟨latest, known, beyond⟩
      · have before := Nat.lt_of_lt_of_le (unmerged merged there) (late revision begun)
        exact absurd beyond (Nat.not_le_of_gt before)
      · have late := Nat.le_trans (late last mem) beyond
        simp [known, late]
  refine ⟨either, failed, fun orderly latest => ?_⟩
  have retried : run.editor.status = .failed ↔ revision ∈ run.log.failures := by
    rw [failed]
    constructor
    · rintro ⟨other, reported, late⟩
      have before := latest other (Log.mem_begun_of_failure orderly reported)
      rwa [Nat.le_antisymm (late revision begun) before]
    · exact fun reported => ⟨revision, reported, latest⟩
  rw [← retried]
  rcases either with pending | failed
  · simp [pending]
  · simp [failed]

/-- A failure of an older request changes nothing: the request for the current tree is in flight. -/
theorem status_of_begun_of_late_failure :
    let run := Run.of default .default
      [.beginValidation, .load default, .beginValidation, .validationFailed 0]
    1 ∈ run.log.begun ∧ run.editor.validation.serverRevision = none ∧ run.log.Orderly ∧
      run.editor.status = .pending := by
  intro run
  have begun : 1 ∈ run.log.begun := by decide
  have orderly : run.log.Orderly := ⟨by decide, trivial⟩
  obtain ⟨-, -, status⟩ := status_of_begun default .default _ 1 begun nofun
  exact ⟨begun, rfl, orderly, (status orderly (by decide)).2 (by decide)⟩

/-- A request fails and is made again. While the second one is in flight, and nothing has been
merged, validation is said to have failed. -/
theorem retry_shown_as_failed :
    let run := Run.of default .default [.beginValidation, .validationFailed 0, .beginValidation]
    run.log.Orderly ∧ 0 ∈ run.log.awaited ∧ run.log.Unanswered 0 ∧
      run.editor.validation.serverRevision = none ∧ run.editor.status = .failed :=
  ⟨⟨by decide, trivial⟩, by decide, Or.inl rfl, rfl, rfl⟩

end RuleEditor.Run
