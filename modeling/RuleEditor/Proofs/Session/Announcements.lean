import RuleEditor.Proofs.Session.Steps

/-!
# The order of announcements

**Activities.** Besides the calls of a schedule, a session may be shut down at any time. Replies on
their way arrive all the same.

**What may follow** (`Update.MayFollow`). An answer follows a request for its revision that has not
been answered yet. Neither answers nor failures go back behind an answer that was announced, nor
failures behind a request.

**The invariant** (`Session.Told`). What has been announced bounds what validation knows: the latest
request is not older than any that was announced, the merged answer not older than any answer. For
each revision that has been requested, the answers and the replies on their way are no more than the
requests.

**Trees without a stored form.** Their failure is announced without a request. No request for such a
revision is ever announced, as a revision has one tree only.
-/

namespace RuleEditor

/-! ## Announcements -/

namespace Update

def revision : Update → Revision
  | edited revision => revision
  | validationStarted revision => revision
  | validated revision _ => revision
  | validationFailed revision _ => revision

def edited? : Update → Option Revision
  | edited revision => some revision
  | _ => none

/-- Whether an announcement says what became of a request for a revision. -/
def answers (about : Revision) : Update → Bool
  | validated revision _ => revision = about
  | validationFailed revision _ => revision = about
  | _ => false

/-- Whether an announcement says that a revision has been sent. -/
def requests (about : Revision) : Update → Bool
  | validationStarted revision => revision = about
  | _ => false

/-- Whether an announcement may come after others. `unstored` tells the revisions that cannot be
sent, with the reason. -/
def MayFollow (unstored : Revision → String → Prop) (before : List Update) : Update → Prop
  | edited _ => True
  | validationStarted _ => True
  | validated revision _ =>
    before.countP (answers revision) < before.countP (requests revision) ∧
      ∀ earlier errors, .validated earlier errors ∈ before → earlier ≤ revision
  | validationFailed revision reason =>
    (unstored revision reason ∨
        before.countP (answers revision) < before.countP (requests revision)) ∧
      (∀ earlier errors, .validated earlier errors ∈ before → earlier < revision) ∧
      ∀ earlier, .validationStarted earlier ∈ before → earlier ≤ revision

/-- An announcement that differs from the last one was made before it. -/
theorem of_mem_concat {announced : List Update} {update last : Update}
    (mem : update ∈ announced ++ [last]) (other : update ≠ last) : update ∈ announced :=
  (List.mem_append.1 mem).resolve_right fun same => other (List.mem_singleton.1 same)

theorem countP_concat (p : Update → Bool) (announced : List Update) (update : Update) :
    (announced ++ [update]).countP p = announced.countP p + if p update then 1 else 0 := by
  rw [List.countP_append, List.countP_singleton]

/-- An answer tells that the tree was validated, or that it was not. -/
theorem eq_of_answers {about : Revision} {update : Update} (answers : update.answers about) :
    (∃ errors, update = validated about errors) ∨
      ∃ reason, update = validationFailed about reason := by
  cases update with
  | edited revision => cases answers
  | validationStarted revision => cases answers
  | validated revision errors => exact Or.inl ⟨errors, of_decide_eq_true answers ▸ rfl⟩
  | validationFailed revision reason => exact Or.inr ⟨reason, of_decide_eq_true answers ▸ rfl⟩

theorem revision_of_answers {about : Revision} {update : Update} (answers : update.answers about) :
    update.revision = about := by
  rcases eq_of_answers answers with ⟨errors, rfl⟩ | ⟨reason, rfl⟩ <;> rfl

end Update

/-- A revision is not later than the known one. -/
def Revision.Reached (revision : Revision) (known : Option Revision) : Prop :=
  ∃ latest, known = some latest ∧ revision ≤ latest

theorem Revision.reached_later {known : Option Revision} {revision earlier : Revision}
    (reached : earlier.Reached known) :
    earlier.Reached (some (ValidationState.later known revision)) := by
  obtain ⟨latest, rfl, before⟩ := reached
  exact ⟨_, rfl, Nat.le_trans before (Nat.le_max_left _ _)⟩

/-- The tree of the editor has no stored form, for some reason. -/
def Editor.Unstored (editor : Editor) (reason : String) : Prop :=
  ∃ error, editor.root.toWire = .error error ∧ error.message = reason

namespace Session

/-! ## Activities -/

/-- What happens to a session. -/
inductive Activity where
  | call (call : Call)
  | shutdown

def act (server : Server) (session : Session) : Activity → Session
  | .call call => session.perform server call
  | .shutdown => session.shutdown

def actAll (server : Server) (session : Session) (activities : List Activity) : Session :=
  activities.foldl (act server) session

/-! ## The invariant -/

/-- What is known of an editor from the announcements, with some replies still on their way. -/
structure Told (unstored : Revision → String → Prop) (flights : List Flight) (editor : Editor)
    (announced : List Update) : Prop where
  edited : announced.filterMap Update.edited? = List.range' 1 editor.revision
  ordered : ∀ before update, before ++ [update] <+: announced → update.MayFollow unstored before
  reached : ∀ update ∈ announced, update.revision ≤ editor.revision
  requested : ∀ revision, .validationStarted revision ∈ announced →
    revision.Reached editor.validation.requested
  merged : ∀ revision errors, .validated revision errors ∈ announced →
    revision.Reached editor.validation.serverRevision
  server : ∀ latest, editor.validation.serverRevision = some latest →
    .validationStarted latest ∈ announced
  awaited : ∀ flight ∈ flights, .validationStarted flight.revision ∈ announced
  balanced : ∀ revision, .validationStarted revision ∈ announced →
    announced.countP (Update.answers revision) +
        flights.countP (fun flight => flight.revision = revision) ≤
      announced.countP (Update.requests revision)
  stored : .validationStarted editor.revision ∈ announced → ∀ reason, ¬ editor.Unstored reason
  answered : ∀ update ∈ announced, update.answers editor.revision →
    .validationStarted editor.revision ∈ announced ∨ ∃ reason, editor.Unstored reason
  known : ∀ reason, editor.Unstored reason → unstored editor.revision reason

namespace Told

variable {unstored : Revision → String → Prop} {flights : List Flight} {flight : Flight}
  {editor : Editor} {announced : List Update}

theorem perm {others : List Flight} (told : Told unstored flights editor announced)
    (same : flights.Perm others) : Told unstored others editor announced :=
  { told with
    awaited := fun flight mem => told.awaited flight (same.mem_iff.2 mem)
    balanced := fun revision started => by
      rw [← same.countP_eq]
      exact told.balanced revision started }

/-- One more announcement that may follow. -/
theorem ordered_concat (told : Told unstored flights editor announced) {update : Update}
    (follows : update.MayFollow unstored announced) (before : List Update) (other : Update)
    (here : before ++ [other] <+: announced ++ [update]) : other.MayFollow unstored before := by
  rcases List.prefix_concat_iff.1 here with whole | earlier
  · obtain ⟨rfl, last⟩ := List.append_inj' whole rfl
    cases last
    exact follows
  · exact told.ordered before other earlier

/-- Nothing has been announced of a new revision. -/
theorem advance (told : Told unstored flights editor announced) {root : Node}
    (known : ∀ reason, (editor.advance root).Unstored reason →
      unstored (editor.revision + 1) reason) :
    Told unstored flights (editor.advance root)
      (announced ++ [.edited (editor.revision + 1)]) := by
  have earlier {update : Update} (mem : update ∈ announced) :
      update.revision ≠ editor.revision + 1 :=
    Nat.ne_of_lt (Nat.lt_succ_of_le (told.reached update mem))
  exact {
    edited := by
      rw [List.filterMap_append, told.edited, Nat.add_comm editor.revision 1]
      exact List.range'_1_concat.symm
    ordered := told.ordered_concat trivial
    reached := List.forall_mem_append.2
      ⟨fun update mem => Nat.le_succ_of_le (told.reached update mem),
        List.forall_mem_singleton.2 (Nat.le_refl _)⟩
    requested := fun revision mem => told.requested revision (Update.of_mem_concat mem nofun)
    merged := fun revision errors mem =>
      told.merged revision errors (Update.of_mem_concat mem nofun)
    server := fun latest known => List.mem_append_left _ (told.server latest known)
    awaited := fun flight mem => List.mem_append_left _ (told.awaited flight mem)
    balanced := fun revision mem => by
      rw [Update.countP_concat, Update.countP_concat]
      exact told.balanced revision (Update.of_mem_concat mem nofun)
    stored := fun mem => absurd rfl (earlier (Update.of_mem_concat mem nofun))
    answered := by
      intro update mem answers
      have other : update ≠ .edited (editor.revision + 1) := by
        rintro rfl
        cases answers
      have before := earlier (Update.of_mem_concat mem other)
      exact absurd (Update.revision_of_answers answers) before
    known := known }

/-- What is known from validation may become more. -/
theorem withValidation (told : Told unstored flights editor announced)
    (validation : ValidationState)
    (requested : ∀ revision : Revision, revision.Reached editor.validation.requested →
      revision.Reached validation.requested)
    (merged : ∀ revision : Revision, revision.Reached editor.validation.serverRevision →
      revision.Reached validation.serverRevision)
    (server : ∀ latest, validation.serverRevision = some latest →
      .validationStarted latest ∈ announced) :
    Told unstored flights { editor with validation := validation } announced :=
  { told with
    requested := fun revision started => requested revision (told.requested revision started)
    merged := fun revision errors said => merged revision (told.merged revision errors said)
    server := server }

/-! ### Requests -/

theorem markPending (told : Told unstored flights editor announced) :
    Told unstored flights
      { editor with validation := editor.validation.markPending editor.revision } announced :=
  told.withValidation _ (fun _ reached => Revision.reached_later reached)
    (fun _ reached => reached) told.server

theorem recordFailure (told : Told unstored flights editor announced) (revision : Revision) :
    Told unstored flights
      { editor with validation := (editor.validation.recordFailure revision).2 } announced := by
  rw [ValidationState.recordFailure_eq]
  exact told.withValidation _ (fun _ reached => reached) (fun _ reached => reached) told.server

/-- Nothing is said of a tree that can be sent before it is sent. -/
theorem balance (told : Told unstored flights editor announced)
    (stored : ∀ reason, ¬ editor.Unstored reason) :
    announced.countP (Update.answers editor.revision) +
        flights.countP (fun flight => flight.revision = editor.revision) ≤
      announced.countP (Update.requests editor.revision) := by
  by_cases started : .validationStarted editor.revision ∈ announced
  · exact told.balanced editor.revision started
  · have unanswered : announced.countP (Update.answers editor.revision) = 0 :=
      List.countP_eq_zero.2 fun update mem answers =>
        (told.answered update mem answers).elim started fun ⟨reason, here⟩ => stored reason here
    have landed : flights.countP (fun flight => flight.revision = editor.revision) = 0 :=
      List.countP_eq_zero.2 fun flight mem about =>
        started (of_decide_eq_true about ▸ told.awaited flight mem)
    rw [unanswered, landed]
    exact Nat.zero_le _

/-- The tree is sent. -/
theorem request (told : Told unstored flights editor announced)
    (stored : ∀ reason, ¬ editor.Unstored reason) (about : flight.revision = editor.revision) :
    Told unstored (flight :: flights)
      { editor with validation := editor.validation.markPending editor.revision }
      (announced ++ [.validationStarted editor.revision]) := by
  have told := told.markPending
  have here : .validationStarted editor.revision ∈
      announced ++ [.validationStarted editor.revision] :=
    List.mem_append_right _ (List.mem_singleton_self _)
  exact {
    edited := by
      rw [List.filterMap_append, told.edited]
      exact List.append_nil _
    ordered := told.ordered_concat trivial
    reached := List.forall_mem_append.2
      ⟨told.reached, List.forall_mem_singleton.2 (Nat.le_refl _)⟩
    requested := by
      intro revision mem
      rcases List.mem_append.1 mem with mem | last
      · exact told.requested revision mem
      · cases List.mem_singleton.1 last
        exact ⟨_, rfl, ValidationState.le_later _ _⟩
    merged := fun revision errors mem =>
      told.merged revision errors (Update.of_mem_concat mem nofun)
    server := fun latest known => List.mem_append_left _ (told.server latest known)
    awaited := List.forall_mem_cons.2
      ⟨about ▸ here, fun flight mem => List.mem_append_left _ (told.awaited flight mem)⟩
    balanced := by
      intro revision mem
      have silent : Update.answers revision (.validationStarted editor.revision) = false := rfl
      have counted : Update.requests revision (.validationStarted editor.revision) =
          decide (editor.revision = revision) := rfl
      rw [Update.countP_concat, Update.countP_concat, List.countP_cons, about, silent, counted,
        if_neg Bool.false_ne_true]
      -- The balance held before, for a first request as for a repeated one.
      have balance : announced.countP (Update.answers revision) +
          flights.countP (fun flight => flight.revision = revision) ≤
            announced.countP (Update.requests revision) := by
        rcases List.mem_append.1 mem with mem | last
        · exact told.balanced revision mem
        · cases List.mem_singleton.1 last
          exact told.balance stored
      omega
    stored := fun _ => stored
    answered := fun _ _ _ => Or.inl here
    known := told.known }

/-- The tree cannot be sent. -/
theorem refuse (told : Told unstored flights editor announced) {reason : String}
    (here : editor.Unstored reason) :
    Told unstored flights editor
      (announced ++ [.validationFailed editor.revision reason]) := by
  have unsent : .validationStarted editor.revision ∉ announced := fun started =>
    told.stored started reason here
  have follows :
      Update.MayFollow unstored announced (.validationFailed editor.revision reason) := by
    refine ⟨Or.inl (told.known reason here), fun earlier errors said => ?_,
      fun earlier started => ?_⟩
    · -- What was merged had been sent, so it was for an earlier tree than this one.
      obtain ⟨latest, known, before⟩ := told.merged earlier errors said
      have sent := told.server latest known
      have bound : latest ≤ editor.revision := told.reached _ sent
      have other : latest ≠ editor.revision := fun now => unsent (now ▸ sent)
      exact Nat.lt_of_le_of_lt before (Nat.lt_of_le_of_ne bound other)
    · exact told.reached _ started
  exact {
    edited := by
      rw [List.filterMap_append, told.edited]
      exact List.append_nil _
    ordered := told.ordered_concat follows
    reached := List.forall_mem_append.2
      ⟨told.reached, List.forall_mem_singleton.2 (Nat.le_refl _)⟩
    requested := fun revision mem => told.requested revision (Update.of_mem_concat mem nofun)
    merged := fun revision errors mem =>
      told.merged revision errors (Update.of_mem_concat mem nofun)
    server := fun latest known => List.mem_append_left _ (told.server latest known)
    awaited := fun flight mem => List.mem_append_left _ (told.awaited flight mem)
    balanced := by
      intro revision mem
      have started := Update.of_mem_concat mem nofun
      have other : editor.revision ≠ revision := fun now => unsent (now ▸ started)
      have silent : Update.answers revision (.validationFailed editor.revision reason) = false :=
        decide_eq_false other
      rw [Update.countP_concat, Update.countP_concat, silent]
      exact told.balanced revision started
    stored := fun mem => absurd (Update.of_mem_concat mem nofun) unsent
    answered := fun _ _ _ => Or.inr ⟨reason, here⟩
    known := told.known }

/-! ### Replies -/

/-- A reply is no longer on its way. -/
theorem land (told : Told unstored (flight :: flights) editor announced) :
    Told unstored flights editor announced :=
  { told with
    awaited := fun flight mem => told.awaited flight (List.mem_cons_of_mem _ mem)
    balanced := fun revision started => by
      have := told.balanced revision started
      rw [List.countP_cons] at this
      omega }

/-- There is a request that a reply on its way answers. -/
theorem countP_answers_lt (told : Told unstored (flight :: flights) editor announced) :
    announced.countP (Update.answers flight.revision) <
      announced.countP (Update.requests flight.revision) := by
  have := told.balanced flight.revision (told.awaited flight List.mem_cons_self)
  rw [List.countP_cons, if_pos (decide_eq_true rfl)] at this
  omega

/-- What a reply says is announced. -/
theorem reply (told : Told unstored (flight :: flights) editor announced) {update : Update}
    (answers : update.answers flight.revision) (follows : update.MayFollow unstored announced)
    (merged : flight.revision.Reached editor.validation.serverRevision ∨
      ∃ reason, update = .validationFailed flight.revision reason) :
    Told unstored flights editor (announced ++ [update]) := by
  have about : update.revision = flight.revision := Update.revision_of_answers answers
  have unedited : update.edited? = none := by
    rcases Update.eq_of_answers answers with ⟨errors, rfl⟩ | ⟨reason, rfl⟩ <;> rfl
  have counts (revision : Revision) :
      update.answers revision = decide (flight.revision = revision) ∧
        update.requests revision = false := by
    rcases Update.eq_of_answers answers with ⟨errors, rfl⟩ | ⟨reason, rfl⟩ <;> exact ⟨rfl, rfl⟩
  have started := told.awaited flight List.mem_cons_self
  have old {revision : Revision} (mem : .validationStarted revision ∈ announced ++ [update]) :
      .validationStarted revision ∈ announced := by
    refine Update.of_mem_concat mem ?_
    rintro rfl
    cases answers
  exact {
    edited := by
      rw [List.filterMap_append, told.edited, List.filterMap_cons_none unedited]
      exact List.append_nil _
    ordered := told.ordered_concat follows
    reached := List.forall_mem_append.2
      ⟨told.reached, List.forall_mem_singleton.2 (about ▸ told.reached _ started)⟩
    requested := fun revision mem => told.requested revision (old mem)
    merged := by
      intro revision errors mem
      rcases List.mem_append.1 mem with mem | last
      · exact told.merged revision errors mem
      · cases List.mem_singleton.1 last
        cases about
        exact merged.resolve_right nofun
    server := fun latest known => List.mem_append_left _ (told.server latest known)
    awaited := fun other mem =>
      List.mem_append_left _ (told.awaited other (List.mem_cons_of_mem _ mem))
    balanced := by
      intro revision mem
      have balance := told.balanced revision (old mem)
      obtain ⟨same, silent⟩ := counts revision
      rw [Update.countP_concat, Update.countP_concat, same, silent]
      rw [List.countP_cons] at balance
      omega
    stored := fun mem => told.stored (old mem)
    answered := by
      intro other mem tells
      refine Or.imp_left (List.mem_append_left _) ?_
      rcases List.mem_append.1 mem with mem | last
      · exact told.answered other mem tells
      · cases List.mem_singleton.1 last
        have now : flight.revision = editor.revision :=
          about.symm.trans (Update.revision_of_answers tells)
        exact Or.inl (now ▸ started)
    known := told.known }

/-- A response is merged. It is not older than the merged one. -/
theorem merge (told : Told unstored (flight :: flights) editor announced)
    (fresh : editor.validation.isSuperseded flight.revision = false) (response : Response)
    (tree : Node) (errors : Nat) :
    Told unstored flights
      { editor with validation := editor.validation.merge flight.revision response tree }
      (announced ++ [.validated flight.revision errors]) := by
  have newest := ValidationState.isSuperseded_eq_false_iff.1 fresh
  have follows : Update.MayFollow unstored announced (.validated flight.revision errors) := by
    refine ⟨told.countP_answers_lt, fun earlier errors said => ?_⟩
    obtain ⟨latest, known, before⟩ := told.merged earlier errors said
    exact Nat.le_trans before (newest latest known)
  have told := told.withValidation (editor.validation.merge flight.revision response tree)
    (fun _ reached => reached)
    (fun revision ⟨latest, known, before⟩ =>
      ⟨flight.revision, rfl, Nat.le_trans before (newest latest known)⟩)
    (fun latest known => by
      cases known
      exact told.awaited flight List.mem_cons_self)
  exact told.reply (decide_eq_true rfl) follows (Or.inl ⟨_, rfl, Nat.le_refl _⟩)

/-- A failure counts. No later request has been sent, and no response for this or a later one has
been merged. -/
theorem fail (told : Told unstored (flight :: flights) editor announced)
    (matters : editor.validation.isMoot flight.revision = false) (reason : String) :
    Told unstored flights
      { editor with validation := (editor.validation.recordFailure flight.revision).2 }
      (announced ++ [.validationFailed flight.revision reason]) := by
  have newest : ¬ ((∃ merged, editor.validation.serverRevision = some merged ∧
      flight.revision ≤ merged) ∨
      ∃ sent, editor.validation.requested = some sent ∧ flight.revision < sent) := by
    rw [← ValidationState.isMoot_eq_true_iff, matters]
    exact Bool.false_ne_true
  have follows :
      Update.MayFollow unstored announced (.validationFailed flight.revision reason) := by
    refine ⟨Or.inr told.countP_answers_lt, fun earlier errors said => ?_, fun earlier sent => ?_⟩
    · obtain ⟨latest, known, before⟩ := told.merged earlier errors said
      exact Nat.lt_of_not_le fun after =>
        newest (Or.inl ⟨latest, known, Nat.le_trans after before⟩)
    · obtain ⟨latest, known, before⟩ := told.requested earlier sent
      exact Nat.le_of_not_lt fun after =>
        newest (Or.inr ⟨latest, known, Nat.lt_of_lt_of_le after before⟩)
  exact (told.recordFailure flight.revision).reply (decide_eq_true rfl) follows
    (Or.inr ⟨reason, rfl⟩)

end Told

/-! ## Following the session -/

variable {unstored : Revision → String → Prop} {server : Server} {session : Session}

/-- What the announcements of a session tell, as long as it has sent nothing more. -/
theorem told_keptByReplies (unstored : Revision → String → Prop) :
    KeptByReplies fun flights session =>
      Told unstored flights session.editor session.announced where
  perm := fun same told => told.perm same
  timed := fun _ _ told => told
  received := by
    intro flight flights session next told received
    cases received with
    | merged came fresh => exact told.merge fresh _ _ _
    | dropped => exact told.land
    | failed came matters => exact told.fail matters _
    | moot came late => exact (told.recordFailure flight.revision).land

theorem told_dispatch (told : Told unstored session.inFlight session.editor session.announced) :
    Told unstored (session.dispatch server).inFlight (session.dispatch server).editor
      (session.dispatch server).announced := by
  cases stored : session.editor.root.toWire with
  | ok tree =>
    have sendable (reason : String) : ¬ session.editor.Unstored reason := by
      rintro ⟨error, unstored, -⟩
      rw [stored] at unstored
      cases unstored
    rw [dispatch_of_ok stored]
    exact (told.request sendable rfl).perm (Follows.insertFlight_perm _ _).symm
  | error error =>
    rw [dispatch_of_error stored]
    exact ((told.markPending).recordFailure _).refuse ⟨error, stored, rfl⟩

theorem told_edited (told : Told unstored session.inFlight session.editor session.announced)
    {root : Node}
    (known : ∀ reason, (session.edited (session.editor.advance root)).editor.Unstored reason →
      unstored (session.edited (session.editor.advance root)).editor.revision reason) :
    Told unstored (session.edited (session.editor.advance root)).inFlight
      (session.edited (session.editor.advance root)).editor
      (session.edited (session.editor.advance root)).announced := by
  rw [editor_edited] at known
  rw [editor_edited, announced_edited, inFlight_edited]
  exact told.advance known

/-- One activity. -/
theorem told_act (told : Told unstored session.inFlight session.editor session.announced)
    (activity : Activity)
    (known : ∀ reason, (session.act server activity).editor.Unstored reason →
      unstored (session.act server activity).editor.revision reason) :
    Told unstored (session.act server activity).inFlight (session.act server activity).editor
      (session.act server activity).announced := by
  cases activity with
  | shutdown => exact told
  | call call =>
    cases call with
    | apply intent supply =>
      rw [act, perform, apply_eq] at known ⊢
      cases applied : session.editor.apply intent supply with
      | error error => exact told
      | ok result =>
        obtain ⟨editor, rest⟩ := result
        obtain ⟨-, root, -, rfl⟩ := Editor.apply_eq_ok applied
        rw [applied] at known
        exact told_edited told known
    | load root => exact told_edited told known
    | revalidate =>
      show Told unstored session.revalidate.inFlight session.schedule.editor
        session.schedule.announced
      rw [inFlight_revalidate, editor_schedule, announced_schedule]
      exact told
    | wait milliseconds => exact (told_keptByReplies unstored).advanceTo told_dispatch told _

/-- What is told holds along a schedule, if `unstored` tells the trees without a stored form that
the session comes by. -/
theorem told_actAll (told : Told unstored session.inFlight session.editor session.announced)
    (activities : List Activity)
    (known : ∀ before, before <+: activities → ∀ reason,
      (session.actAll server before).editor.Unstored reason →
        unstored (session.actAll server before).editor.revision reason) :
    let next := session.actAll server activities
    Told unstored next.inFlight next.editor next.announced := by
  induction activities generalizing session with
  | nil => exact told
  | cons activity activities ih =>
    have first := known [activity] (List.prefix_append [activity] activities)
    exact ih (told_act told activity first) fun before earlier =>
      known (activity :: before) ((List.prefix_cons_inj activity).2 earlier)

/-! ## The order -/

/-- At some point of a schedule, the session has a tree of this revision that cannot be sent for
this reason. -/
def MeetsUnstored (server : Server) (first : Session) (activities : List Activity)
    (revision : Revision) (reason : String) : Prop :=
  ∃ before, before <+: activities ∧ (first.actAll server before).editor.revision = revision ∧
    (first.actAll server before).editor.Unstored reason

/-- Nothing has been announced of an editor in which nothing has happened. -/
theorem Told.start {unstored : Revision → String → Prop} {root : Node} {config : EditorConfig}
    {setup : List Operation} (fresh : (Run.of root config setup).log = [])
    (known : ∀ reason, (Run.of root config setup).editor.Unstored reason →
      unstored (Run.of root config setup).editor.revision reason) :
    Told unstored [] (Run.of root config setup).editor [] := by
  have timely := Run.Timely.of root config setup
  have sound : Run.Sound (Run.of root config setup) := .of root config setup
  have unedited : (Run.of root config setup).editor.revision = 0 := by
    rw [← timely.edits, fresh]
    rfl
  have unmerged : (Run.of root config setup).editor.validation.server = none := by
    have server := sound.server
    rw [fresh] at server
    exact server
  exact {
    edited := by
      rw [unedited]
      rfl
    ordered := by
      intro before update here
      simp at here
    reached := nofun
    requested := nofun
    merged := nofun
    server := by
      intro latest known
      rw [ValidationState.serverRevision, unmerged] at known
      cases known
    awaited := nofun
    balanced := nofun
    stored := nofun
    answered := nofun
    known := known }

/-- **The order of announcements.** Take a session over an editor in which nothing has happened, any
server and anything that happens to the session, its shutdown included. Edits are numbered from one
without gaps. An answer, whether it is a validation or a failure, comes after a request for its
revision that had no answer before; only the failure of a tree that has no stored form comes without
a request. The revisions of validations never decrease. No failure comes after a validation of its
own or a later revision, and none after a request for a later revision. -/
theorem announced_in_order (server : Server) (timing : SessionConfig) {root : Node}
    {config : EditorConfig} {setup : List Operation}
    (fresh : (Run.of root config setup).log = []) (activities : List Activity) :
    let first := start timing (Run.of root config setup).editor
    let session := first.actAll server activities
    session.announced.filterMap Update.edited? = List.range' 1 session.editor.revision ∧
    ∀ before update, before ++ [update] <+: session.announced →
      update.MayFollow (first.MeetsUnstored server activities) before := by
  intro first session
  have told : Told (first.MeetsUnstored server activities) session.inFlight session.editor
      session.announced := by
    have told : Told (first.MeetsUnstored server activities) first.inFlight first.editor
        first.announced :=
      Told.start fresh fun reason here => ⟨[], List.nil_prefix, rfl, here⟩
    exact told_actAll told activities fun before earlier reason here =>
      ⟨before, earlier, rfl, here⟩
  exact ⟨told.edited, told.ordered⟩

/-- The second request fails before the first one is answered. -/
theorem announced_in_order_of_late_answer :
    let server := Server.ofReplies [⟨500, .ok .empty⟩, ⟨10, .error (.transport "down")⟩]
    let first := start .default (Run.of default .default []).editor
    let activities : List Activity :=
      [.call (.load default), .call (.wait 350), .call (.load default), .call (.wait 350),
        .shutdown, .call (.wait 200)]
    let session := first.actAll server activities
    let before : List Update :=
      [.edited 1, .validationStarted 1, .edited 2, .validationStarted 2,
        .validationFailed 2 "Transport error: down"]
    (Run.of default .default []).log = [] ∧ session.announced = before ++ [.validated 1 0] ∧
      Update.MayFollow (first.MeetsUnstored server activities) before (.validated 1 0) := by
  intro server first activities session before
  have fresh : (Run.of default .default []).log = [] := rfl
  obtain ⟨-, ordered⟩ := announced_in_order server .default fresh activities
  have announced : session.announced = before ++ [.validated 1 0] := by decide +kernel
  have last : before ++ [.validated 1 0] <+: session.announced :=
    ⟨[], by rw [List.append_nil, announced]⟩
  exact ⟨fresh, announced, ordered before _ last⟩

end Session

end RuleEditor
