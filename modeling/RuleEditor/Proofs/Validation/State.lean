import RuleEditor.Validation.State

/-!
# What the operations on the state of validation do

One equation for each operation that may or may not take effect, so that nothing else has to look
into them.

**Answers.** An answer is merged (`ValidationState.merge`) exactly when none for a later revision
has been, and the tree that it is about is known.

**Failures.** A failure always takes away the tree that was sent, and counts unless it is
superseded.
-/

namespace RuleEditor.ValidationState

variable {state next : ValidationState} {revision : Revision} {response : Response}

/-! ## Answers -/

theorem isSuperseded_eq_false_iff :
    state.isSuperseded revision = false ↔
      ∀ merged, state.serverRevision = some merged → merged ≤ revision := by
  rw [isSuperseded]
  cases state.serverRevision <;> simp

theorem isSuperseded_eq_true_iff :
    state.isSuperseded revision = true ↔
      ∃ merged, state.serverRevision = some merged ∧ revision < merged := by
  rw [isSuperseded]
  cases state.serverRevision <;> simp

/-- The state after an answer about a tree has been merged. -/
def merge (state : ValidationState) (revision : Revision) (response : Response) (tree : Node) :
    ValidationState :=
  refresh { state with
    server := some (Merged.ofAnnotations revision response.annotations tree)
    submitted := state.submitted.filter fun sent _ => revision < sent
    failed := state.failed.filter (revision < ·) }

theorem accept?_of_tree {tree : Node} (fresh : state.isSuperseded revision = false)
    (known : state.tree? revision = some tree) :
    state.accept? revision response = some (state.merge revision response tree) := by
  rw [accept?, fresh, known]
  rfl

theorem accept?_eq_some (h : state.accept? revision response = some next) :
    state.isSuperseded revision = false ∧
      ∃ tree, state.tree? revision = some tree ∧ next = state.merge revision response tree := by
  rw [accept?] at h
  split at h
  · cases h
  · next fresh =>
    split at h
    · cases h
    · next tree known =>
      cases h
      exact ⟨by simpa using fresh, tree, known, rfl⟩

theorem accept?_eq_none (h : state.accept? revision response = none)
    (fresh : state.isSuperseded revision = false) : state.tree? revision = none := by
  cases known : state.tree? revision with
  | none => rfl
  | some tree =>
    rw [accept?_of_tree fresh known] at h
    cases h

/-! ## Failures -/

/-- Whether a failure does not matter any more. -/
def isMoot (state : ValidationState) (revision : Revision) : Bool :=
  state.serverRevision.any (revision ≤ ·) || state.requested.any (revision < ·)

theorem isMoot_eq_true_iff :
    state.isMoot revision = true ↔
      (∃ merged, state.serverRevision = some merged ∧ revision ≤ merged) ∨
        ∃ sent, state.requested = some sent ∧ revision < sent := by
  rw [isMoot, Bool.or_eq_true]
  cases state.serverRevision <;> cases state.requested <;> simp

/-- The latest failure once another one has come. -/
def failedAfter (state : ValidationState) (revision : Revision) : Option Revision :=
  if state.isMoot revision then state.failed else some (later state.failed revision)

theorem recordFailure_eq :
    (state.recordFailure revision).2 =
      { state with
        submitted := state.submitted.erase revision
        failed := state.failedAfter revision } := by
  rw [recordFailure, failedAfter, isMoot]
  split <;> simp_all [serverRevision]

/-! ## The latest revision -/

theorem le_later (known : Option Revision) (revision : Revision) :
    revision ≤ later known revision := by
  cases known with
  | none => exact Nat.le_refl revision
  | some known => exact Nat.le_max_right known revision

theorem later_eq_self {known : Option Revision} {revision : Revision}
    (bound : ∀ earlier, known = some earlier → earlier ≤ revision) :
    later known revision = revision := by
  cases known with
  | none => rfl
  | some known => exact Nat.max_eq_right (bound known rfl)

theorem later_eq_or (known : Option Revision) (revision : Revision) :
    later known revision = revision ∨ known = some (later known revision) := by
  cases known with
  | none => exact Or.inl rfl
  | some known =>
    rcases Nat.le_total known revision with before | after
    · exact Or.inl (Nat.max_eq_right before)
    · exact Or.inr (congrArg some (Nat.max_eq_left after).symm)

theorem max?_cons_eq_later (revisions : List Revision) (revision : Revision) :
    (revision :: revisions).max? = some (later revisions.max? revision) := by
  rw [List.max?_cons]
  cases revisions.max? with
  | none => rfl
  | some known => exact congrArg some (Nat.max_comm revision known)

theorem requested_markPending {state : ValidationState} {revisions : List Revision}
    (known : state.requested = revisions.max?) (revision : Revision) :
    (state.markPending revision).requested = (revision :: revisions).max? := by
  rw [max?_cons_eq_later, ← known]
  rfl

/-- The latest of some revisions is the same in any order. -/
theorem max?_eq_of_perm {revisions others : List Revision} (same : revisions.Perm others) :
    revisions.max? = others.max? := by
  refine Option.ext fun latest => ?_
  rw [List.max?_eq_some_iff, List.max?_eq_some_iff]
  simp only [same.mem_iff]

/-! ## The latest failure -/

/-- The latest failure is the new one or was known before. -/
theorem eq_or_of_failedAfter {known : Revision}
    (recorded : state.failedAfter revision = some known) :
    known = revision ∨ state.failed = some known := by
  rw [failedAfter] at recorded
  split at recorded
  · exact Or.inr recorded
  · cases recorded
    exact later_eq_or state.failed revision

/-- A failure is not forgotten when another one comes. -/
theorem exists_failedAfter_of_failed {earlier : Revision}
    (recorded : ∃ latest, state.failed = some latest ∧ earlier ≤ latest) :
    ∃ latest, state.failedAfter revision = some latest ∧ earlier ≤ latest := by
  obtain ⟨latest, known, bound⟩ := recorded
  rw [failedAfter]
  split
  · exact ⟨latest, known, bound⟩
  · rw [known]
    exact ⟨_, rfl, Nat.le_trans bound (Nat.le_max_left _ _)⟩

/-- A failure that matters is recorded. -/
theorem exists_failedAfter_of_not_moot (matters : state.isMoot revision = false) :
    ∃ latest, state.failedAfter revision = some latest ∧ revision ≤ latest := by
  rw [failedAfter, matters]
  exact ⟨_, rfl, le_later _ _⟩

end RuleEditor.ValidationState
