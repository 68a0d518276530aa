import RuleEditor.Proofs.Session.Quiescence

/-!
# The steps of a session

**Replies** (`Session.Received`). A reply is merged and announced as validated, or announced as
failed, or it comes too late and nothing is announced. Nothing else looks into `Session.receive`.

**Requests.** A session sends its tree if the tree has a stored form, and announces a failure
otherwise (`dispatch_of_ok`, `dispatch_of_error`).

**Time** (`Session.KeptByReplies`). A property that no reply takes away, and no request either, is
kept while time passes.

**What replies leave alone** (`Session.Unmoved`). However many replies arrive, what the caller
did stays as it is: the tree and its revision (`Editor.SameDocument`), the quiet time and the
requests. Announcements are added and never taken back.
-/

namespace RuleEditor

/-! ## Documents -/

namespace Editor

/-- The editors differ in what is known from validation at most. -/
def SameDocument (one other : Editor) : Prop := one = { other with validation := one.validation }

theorem apply_eq (editor : Editor) (intent : Intent) (supply : Nat) :
    editor.apply intent supply =
      if editor.config.mode = .view then .error .readOnly
      else
        match editor.root.reduce intent supply with
        | .ok (root, rest) => .ok (editor.advance root, rest)
        | .error error => .error error := by
  rw [apply]
  split
  · rfl
  · show (editor.root.reduce intent supply >>= fun result =>
      Except.ok (editor.advance result.1, result.2)) = _
    cases editor.root.reduce intent supply <;> rfl

namespace SameDocument

variable {one other : Editor} {intent : Intent} {supply : Nat}

theorem trans {third : Editor} (first : one.SameDocument other)
    (second : other.SameDocument third) : one.SameDocument third := by
  rw [SameDocument] at first second ⊢
  rw [first, second]

theorem root (same : one.SameDocument other) : one.root = other.root := by rw [same]

theorem revision (same : one.SameDocument other) : one.revision = other.revision := by rw [same]

theorem advance (same : one.SameDocument other) (root : Node) :
    (one.advance root).SameDocument (other.advance root) := by
  rw [same]
  rfl

theorem withValidation (same : one.SameDocument other) (validation : ValidationState) :
    Editor.SameDocument { one with validation := validation } other := by
  rw [same]
  rfl

/-- Whether an edit succeeds does not depend on what is known from validation. -/
theorem apply (same : one.SameDocument other) (intent : Intent) (supply : Nat) :
    (∃ error, other.apply intent supply = .error error ∧
        one.apply intent supply = .error error) ∨
      ∃ root rest, other.apply intent supply = .ok (other.advance root, rest) ∧
        one.apply intent supply = .ok (one.advance root, rest) := by
  have mode : one.config.mode = other.config.mode := by rw [same]
  rw [apply_eq, apply_eq, mode, same.root]
  split
  · exact Or.inl ⟨_, rfl, rfl⟩
  · cases other.root.reduce intent supply with
    | error error => exact Or.inl ⟨error, rfl, rfl⟩
    | ok result => exact Or.inr ⟨result.1, result.2, rfl, rfl⟩

end SameDocument

end Editor

namespace ValidationState

/-- A failure is recorded if it matters. -/
theorem recordFailure_fst (state : ValidationState) (revision : Revision) :
    (state.recordFailure revision).1 = !state.isMoot revision := by
  show (if state.isMoot revision then (false, _) else (true, _)).1 = _
  cases state.isMoot revision <;> rfl

end ValidationState

namespace Session

variable {server : Server} {session next : Session}

/-! ## Triggers -/

theorem schedule_of_isOpen (isOpen : session.isOpen = true) :
    session.schedule =
      { session with deadline := some (session.clock + session.config.debounce.toNat) } :=
  if_pos isOpen

theorem edited_of_isOpen (isOpen : session.isOpen = true) (editor : Editor) :
    session.edited editor =
      { session with
        editor := editor
        announced := session.announced ++ [.edited editor.revision]
        deadline := some (session.clock + session.config.debounce.toNat) } :=
  schedule_of_isOpen isOpen

@[simp] theorem clock_schedule (session : Session) : session.schedule.clock = session.clock := by
  rw [schedule]
  split <;> rfl

@[simp] theorem editor_schedule (session : Session) : session.schedule.editor = session.editor := by
  rw [schedule]
  split <;> rfl

@[simp] theorem announced_schedule (session : Session) :
    session.schedule.announced = session.announced := by
  rw [schedule]
  split <;> rfl

@[simp] theorem editor_edited (session : Session) (editor : Editor) :
    (session.edited editor).editor = editor := editor_schedule _

@[simp] theorem announced_edited (session : Session) (editor : Editor) :
    (session.edited editor).announced = session.announced ++ [.edited editor.revision] :=
  announced_schedule _

@[simp] theorem clock_edited (session : Session) (editor : Editor) :
    (session.edited editor).clock = session.clock := clock_schedule _

/-! ## Replies -/

/-- What becomes of a session when a reply arrives. -/
inductive Received (session : Session) (flight : Flight) : Session → Prop
  | merged {response : Response} {tree : Node} (came : flight.outcome = .ok response)
      (fresh : session.editor.validation.isSuperseded flight.revision = false) :
      Received session flight ({ session with editor := { session.editor with
        validation := session.editor.validation.merge flight.revision response tree } }.announce
          (.validated flight.revision response.annotations.errorCount))
  | dropped : Received session flight session
  | failed {failure : ServerFailure} (came : flight.outcome = .error failure)
      (matters : session.editor.validation.isMoot flight.revision = false) :
      Received session flight ({ session with editor := { session.editor with
        validation := (session.editor.validation.recordFailure flight.revision).2 } }.announce
          (.validationFailed flight.revision failure.message))
  | moot {failure : ServerFailure} (came : flight.outcome = .error failure)
      (late : session.editor.validation.isMoot flight.revision = true) :
      Received session flight { session with editor := { session.editor with
        validation := (session.editor.validation.recordFailure flight.revision).2 } }

theorem receive_spec (session : Session) (flight : Flight) :
    Received session flight (session.receive flight) := by
  rw [receive]
  cases came : flight.outcome with
  | ok response =>
    rcases session.editor.acceptValidation_cases flight.revision response with
      ⟨tree, fresh, -, merged⟩ | ⟨-, dropped⟩
    · simp only [merged]
      exact .merged came fresh
    · simp only [dropped]
      exact .dropped
  | error failure =>
    have recorded := session.editor.validation.recordFailure_fst flight.revision
    rw [Editor.validationFailed]
    cases late : session.editor.validation.isMoot flight.revision with
    | true =>
      rw [late] at recorded
      simp only [recorded, Bool.not_true]
      exact .moot came late
    | false =>
      rw [late] at recorded
      simp only [recorded, Bool.not_false]
      exact .failed came late

/-! ## Requests -/

theorem dispatch_of_ok {tree : WireNode} (stored : session.editor.root.toWire = .ok tree) :
    session.dispatch server =
      let revision := session.editor.revision
      let reply := server session.sent.length tree
      { session.announce (.validationStarted revision) with
        editor := { session.editor with
          validation := session.editor.validation.markPending revision }
        deadline := none
        sent := session.sent ++ [⟨session.clock, ⟨revision, tree⟩⟩]
        inFlight := insertFlight ⟨session.clock + reply.delay, revision, reply.outcome⟩
          session.inFlight } := by
  rw [dispatch, Editor.beginValidation, stored]
  rfl

theorem dispatch_of_error {error : UnsupportedConstant}
    (unstored : session.editor.root.toWire = .error error) :
    session.dispatch server =
      let revision := session.editor.revision
      { session.announce (.validationFailed revision error.message) with
        editor := { session.editor with
          validation :=
            ((session.editor.validation.markPending revision).recordFailure revision).2 }
        deadline := none } := by
  rw [dispatch, Editor.beginValidation, unstored]
  rfl

/-! ## Replies while time passes -/

/-- A property of a session and of the replies on their way that no reply takes away, whatever the
clock says. -/
structure KeptByReplies (P : List Flight → Session → Prop) : Prop where
  perm : ∀ {flights others : List Flight} {session : Session}, flights.Perm others →
    P flights session → P others session
  timed : ∀ {flights : List Flight} {session : Session} (clock : Nat) (inFlight : List Flight),
    P flights session → P flights { session with clock := clock, inFlight := inFlight }
  received : ∀ {flight : Flight} {flights : List Flight} {session next : Session},
    P (flight :: flights) session → Received session flight next → P flights next

namespace KeptByReplies

variable {P : List Flight → Session → Prop}

theorem receiveAll (kept : KeptByReplies P) {flights : List Flight} (due : List Flight)
    (holds : P (due ++ flights) session) : P flights (due.foldl receiveAt session) := by
  induction due generalizing session with
  | nil => exact holds
  | cons flight rest ih =>
    exact ih (kept.received (kept.timed flight.due session.inFlight holds) (receive_spec _ flight))

theorem deliver (kept : KeptByReplies P) (holds : P session.inFlight session) (time : Nat) :
    P (session.deliver time).inFlight (session.deliver time) := by
  obtain ⟨due, later, parts, eq⟩ := session.deliver_eq time
  rw [eq, inFlight_foldl_receiveAt]
  exact kept.receiveAll due (kept.timed session.clock later (kept.perm parts.symm holds))

/-- Time passes, and the tree may be sent. -/
theorem advanceTo (kept : KeptByReplies P)
    (dispatched : ∀ {session : Session}, P session.inFlight session →
      P (session.dispatch server).inFlight (session.dispatch server))
    (holds : P session.inFlight session) (time : Nat) :
    P (session.advanceTo server time).inFlight (session.advanceTo server time) := by
  have passes {session : Session} (holds : P session.inFlight session) (time : Nat) :
      P (session.deliver time).inFlight { session.deliver time with clock := time } :=
    kept.timed time _ (kept.deliver holds time)
  rw [Session.advanceTo]
  cases session.deadline with
  | none => exact passes holds time
  | some deadline =>
    by_cases passed : deadline ≤ time
    · simp only [if_pos passed]
      exact passes (dispatched (passes holds deadline)) time
    · simp only [if_neg passed]
      exact passes holds time

end KeptByReplies

/-! ## What replies leave alone -/

/-- What may change while nothing is sent: replies arrive, and what they say is merged and
announced. -/
structure Unmoved (session next : Session) : Prop where
  config : next.config = session.config
  isOpen : next.isOpen = session.isOpen
  deadline : next.deadline = session.deadline
  sent : next.sent = session.sent
  editor : next.editor.SameDocument session.editor
  announced : session.announced <+: next.announced

namespace Unmoved

theorem refl (session : Session) : Unmoved session session :=
  ⟨rfl, rfl, rfl, rfl, rfl, List.prefix_refl _⟩

theorem trans {last : Session} (first : Unmoved session next) (second : Unmoved next last) :
    Unmoved session last where
  config := second.config.trans first.config
  isOpen := second.isOpen.trans first.isOpen
  deadline := second.deadline.trans first.deadline
  sent := second.sent.trans first.sent
  editor := second.editor.trans first.editor
  announced := first.announced.trans second.announced

end Unmoved

theorem Received.unmoved {flight : Flight} (received : Received session flight next) :
    Unmoved session next := by
  cases received with
  | merged => exact ⟨rfl, rfl, rfl, rfl, rfl, List.prefix_append _ _⟩
  | dropped => exact .refl session
  | failed => exact ⟨rfl, rfl, rfl, rfl, rfl, List.prefix_append _ _⟩
  | moot => exact ⟨rfl, rfl, rfl, rfl, rfl, List.prefix_refl _⟩

theorem unmoved_deliver (session : Session) (time : Nat) :
    Unmoved session (session.deliver time) := by
  have kept : KeptByReplies fun _ next => Unmoved session next :=
    { perm := fun _ unmoved => unmoved
      timed := fun _ _ unmoved => { unmoved with }
      received := fun unmoved received => unmoved.trans received.unmoved }
  exact kept.deliver (.refl session) time

/-- The quiet time ends: what is due by then arrives, the tree is sent, and time goes on. -/
theorem advanceTo_of_due {time deadline : Nat} (due : session.deadline = some deadline)
    (passed : deadline ≤ time) :
    session.advanceTo server time =
      let next := { session.deliver deadline with clock := deadline }.dispatch server
      { next.deliver time with clock := time } := by
  rw [advanceTo, due]
  simp only [if_pos passed]

/-- Time passes without the end of a quiet time. -/
theorem unmoved_advanceTo {time : Nat}
    (quiet : ∀ deadline, session.deadline = some deadline → time < deadline) :
    Unmoved session (session.advanceTo server time) := by
  have delivered : Unmoved session { session.deliver time with clock := time } :=
    { unmoved_deliver session time with }
  rw [advanceTo]
  cases due : session.deadline with
  | none => exact delivered
  | some deadline =>
    simp only [if_neg (Nat.not_le.2 (quiet deadline due))]
    exact delivered

end Session

end RuleEditor
