import RuleEditor.Proofs.Editor.Current
import RuleEditor.Session.Basic

/-!
# Quiescent sessions

**Schedules.** A caller edits, loads and asks for validation at any times, and the server answers
after any delay. A session is *quiescent* when no quiet time is under way and no reply is on its
way.

**The invariant** (`Session.Follows`). What a session does to its editor is an orderly run, in which
the requests that wait are those whose replies are on their way, and a reply has been sent for the
current revision or will be when the quiet time ends.

**The outcome.** A session that has been asked for something and is quiescent has validated its tree
if one of the requests for the current revision was answered by a response. Otherwise validation has
failed; it is never left pending or idle.
-/

namespace RuleEditor

/-- What a reply does to the editor when it arrives. -/
def Flight.operation (flight : Flight) : Operation :=
  match flight.outcome with
  | .ok response => .acceptValidation flight.revision response
  | .error _ => .validationFailed flight.revision

/-- What the log says of a reply that has arrived. -/
inductive Flight.Logged (flight : Flight) : Event → Prop
  | answered {response : Response} {merged : Bool} (came : flight.outcome = .ok response) :
      Logged flight (.answered flight.revision response merged)
  | failed {failure : ServerFailure} (came : flight.outcome = .error failure) :
      Logged flight (.failed flight.revision)

namespace Session

/-! ## Schedules -/

/-- What the caller of a session does. -/
inductive Call where
  /-- Carries out an edit, which takes new identities from `supply` on. -/
  | apply (intent : Intent) (supply : Nat)
  | load (root : Node)
  | revalidate
  /-- Lets time pass. -/
  | wait (milliseconds : Nat)

/-- The session after a call. An edit that fails changes nothing. -/
def perform (server : Server) (session : Session) : Call → Session
  | .apply intent supply =>
    match session.apply intent supply with
    | .ok (session, _) => session
    | .error _ => session
  | .load root => session.load root
  | .revalidate => session.revalidate
  | .wait milliseconds => session.advance server milliseconds

def performAll (server : Server) (session : Session) (calls : List Call) : Session :=
  calls.foldl (perform server) session

theorem apply_eq (session : Session) (intent : Intent) (supply : Nat) :
    session.apply intent supply =
      match session.editor.apply intent supply with
      | .ok (editor, rest) => .ok (session.edited editor, rest)
      | .error error => .error error := by
  show (session.editor.apply intent supply >>= fun result =>
    Except.ok (session.edited result.1, result.2)) = _
  cases session.editor.apply intent supply <;> rfl

/-- Whether a call starts the quiet time. -/
def Triggers (session : Session) : Call → Prop
  | .apply intent supply => (session.apply intent supply).isOk
  | .load _ => True
  | .revalidate => True
  | .wait _ => False

/-- Whether some call of a schedule started the quiet time. -/
def Triggered (server : Server) (session : Session) : List Call → Prop
  | [] => False
  | call :: rest => session.Triggers call ∨ Triggered server (session.perform server call) rest

/-- No request is due and no reply is on its way. -/
structure Quiescent (session : Session) : Prop where
  quiet : session.deadline = none
  landed : session.inFlight = []

/-- A request that was sent for a revision is one that the server answers by a response. -/
def Answered (server : Server) (session : Session) (revision : Revision) (response : Response) :
    Prop :=
  ∃ number dispatch, session.sent[number]? = some dispatch ∧
    dispatch.request.revision = revision ∧
      (server number dispatch.request.tree).outcome = .ok response

/-- What the server answers is what it answered before, and its answer to the request sent last. -/
theorem answered_append {server : Server} (session : Session) {next : Session} {time : Nat}
    {request : ValidationRequest} (sent : next.sent = session.sent ++ [⟨time, request⟩])
    {revision : Revision} {response : Response} :
    next.Answered server revision response ↔
      session.Answered server revision response ∨ request.revision = revision ∧
        (server session.sent.length request.tree).outcome = .ok response := by
  rw [Answered, sent]
  constructor
  · rintro ⟨number, dispatch, found, about, answer⟩
    rcases Nat.lt_or_ge number session.sent.length with before | last
    · rw [List.getElem?_append_left before] at found
      exact Or.inl ⟨number, dispatch, found, about, answer⟩
    · rw [List.getElem?_append_right last, List.getElem?_singleton] at found
      split at found
      · next first =>
        cases found
        obtain rfl : number = session.sent.length := by omega
        exact Or.inr ⟨about, answer⟩
      · cases found
  · rintro (⟨number, dispatch, found, about, answer⟩ | ⟨about, answer⟩)
    · obtain ⟨before, -⟩ := List.getElem?_eq_some_iff.1 found
      exact ⟨number, dispatch, (List.getElem?_append_left before).trans found, about, answer⟩
    · exact ⟨_, _, List.getElem?_concat_length, about, answer⟩

@[simp] theorem inFlight_edited (session : Session) (editor : Editor) :
    (session.edited editor).inFlight = session.inFlight := by
  rw [edited, schedule]
  split <;> rfl

@[simp] theorem inFlight_revalidate (session : Session) :
    session.revalidate.inFlight = session.inFlight := by
  rw [revalidate, schedule]
  split <;> rfl

/-- A reply arrives when it is due. -/
def receiveAt (session : Session) (flight : Flight) : Session :=
  { session with clock := flight.due }.receive flight

theorem inFlight_receive (session : Session) (flight : Flight) :
    (session.receive flight).inFlight = session.inFlight := by
  rw [receive]
  split <;> split <;> rfl

theorem inFlight_foldl_receiveAt (due : List Flight) (session : Session) :
    (due.foldl receiveAt session).inFlight = session.inFlight := by
  induction due generalizing session with
  | nil => rfl
  | cons flight rest ih => exact (ih _).trans (inFlight_receive _ flight)

/-- The replies on their way are split into those that arrive and the others. -/
theorem deliver_eq (session : Session) (time : Nat) :
    ∃ due later : List Flight, (due ++ later).Perm session.inFlight ∧
      session.deliver time = due.foldl receiveAt { session with inFlight := later } := by
  let isDue : Flight → Bool := (·.due ≤ time)
  refine ⟨session.inFlight.filter isDue, session.inFlight.filter (!isDue ·),
    List.filter_append_perm isDue _, ?_⟩
  rw [deliver, List.partition_eq_filter_filter]
  rfl

/-! ## The invariant -/

/-- A run of the editor is what a session has done to it, with some replies still on their way. -/
structure Follows (server : Server) (triggered : Prop) (flights : List Flight) (session : Session)
    (run : Run) : Prop where
  isOpen : session.isOpen = true
  editor : session.editor = run.editor
  orderly : run.log.Orderly
  awaited : run.log.awaited.Perm (flights.map (·.revision))
  answered : ∀ revision response, session.Answered server revision response ↔
    (∃ flight ∈ flights, flight.revision = revision ∧ flight.outcome = .ok response) ∨
      (revision, response) ∈ run.log.responses
  requested : triggered → session.deadline = none → run.editor.revision ∈ run.log.begun

namespace Follows

variable {server : Server} {triggered : Prop} {flights : List Flight} {session : Session}
  {run : Run}

theorem perm {others : List Flight} (follows : Follows server triggered flights session run)
    (same : flights.Perm others) : Follows server triggered others session run :=
  { follows with
    awaited := follows.awaited.trans (same.map _)
    answered := fun revision response => by
      simp only [follows.answered revision response, same.mem_iff] }

theorem mono {fewer : Prop} (follows : Follows server triggered flights session run)
    (asked : fewer → triggered) : Follows server fewer flights session run :=
  { follows with requested := fun triggers => follows.requested (asked triggers) }

theorem start {root : Node} {config : EditorConfig} {setup : List Operation}
    (fresh : (Run.of root config setup).log = []) (server : Server) (timing : SessionConfig) :
    Follows server False [] (Session.start timing (Run.of root config setup).editor)
      (Run.of root config setup) where
  isOpen := rfl
  editor := rfl
  orderly := by
    rw [fresh]
    trivial
  awaited := by
    rw [fresh]
    exact .nil
  answered := fun revision response => by
    rw [fresh]
    refine iff_of_false ?_ (by simp [Log.responses])
    rintro ⟨number, dispatch, found, -⟩
    cases found
  requested := False.elim

/-! ## Calls -/

/-- Whatever was called before, the quiet time starts anew. -/
theorem schedule (follows : Follows server triggered flights session run) :
    Follows server True flights session.schedule run := by
  rw [Session.schedule, if_pos follows.isOpen]
  exact { follows with requested := nofun }

theorem edited (follows : Follows server triggered flights session run) (root : Node) :
    Follows server True flights (session.edited (session.editor.advance root))
      (run.edited (run.editor.advance root)) := by
  have edited : Follows server False flights
      ({ session with editor := session.editor.advance root }.announce
        (.edited (session.editor.advance root).revision))
      (run.edited (run.editor.advance root)) :=
    { follows with
      editor := congrArg (·.advance root) follows.editor
      requested := False.elim }
  exact edited.schedule

theorem apply (follows : Follows server triggered session.inFlight session run) (intent : Intent)
    (supply : Nat) :
    Follows server (session.Triggers (.apply intent supply) ∨ triggered)
      (session.perform server (.apply intent supply)).inFlight
        (session.perform server (.apply intent supply)) (run.step (.apply intent supply)) := by
  rw [Run.step, perform, Triggers, apply_eq, ← follows.editor]
  cases applied : session.editor.apply intent supply with
  | error error =>
    refine follows.mono fun asked => asked.resolve_left ?_
    rintro ⟨⟩
  | ok result =>
    obtain ⟨editor, rest⟩ := result
    obtain ⟨-, root, -, rfl⟩ := Editor.apply_eq_ok applied
    have edited := follows.edited root
    rw [← follows.editor] at edited
    rw [inFlight_edited]
    exact edited.mono fun _ => trivial

/-! ## Requests and replies -/

theorem insertFlight_perm (flight : Flight) (flights : List Flight) :
    (insertFlight flight flights).Perm (flight :: flights) := by
  induction flights with
  | nil => exact .refl _
  | cons other rest ih =>
    rw [insertFlight]
    split
    · exact .refl _
    · exact (ih.cons other).trans (.swap _ _ _)

theorem dispatch (follows : Follows server triggered session.inFlight session run) :
    Follows server True (session.dispatch server).inFlight (session.dispatch server)
      (run.step .beginValidation) := by
  rw [Session.dispatch, Run.step, ← follows.editor, Editor.beginValidation]
  cases session.editor.root.toWire with
  | error error =>
    exact { follows with
      editor := rfl
      requested := fun _ _ => List.mem_cons_self }
  | ok tree =>
    let reply := server session.sent.length tree
    let flight : Flight := ⟨session.clock + reply.delay, session.editor.revision, reply.outcome⟩
    show Follows server True (insertFlight flight session.inFlight) _ _
    refine Follows.perm ?_ (insertFlight_perm flight session.inFlight).symm
    exact {
      isOpen := follows.isOpen
      editor := rfl
      orderly := follows.orderly
      awaited := follows.awaited.cons session.editor.revision
      answered := fun revision response => by
        refine (answered_append session rfl).trans ?_
        rw [follows.answered revision response, or_right_comm, List.exists_mem_cons_iff]
        exact or_congr_left or_comm
      requested := fun _ _ => List.mem_cons_self }

/-- A reply that has arrived is no longer on its way, and its answer is logged. -/
theorem landed {flight : Flight} {event : Event}
    (follows : Follows server triggered (flight :: flights) session run)
    (logged : flight.Logged event) {editor : Editor} (announced : List Update)
    (kept : editor.revision = run.editor.revision) :
    Follows server triggered flights { session with editor := editor, announced := announced }
      ⟨editor, run.trees, event :: run.log⟩ := by
  have waiting : flight.revision ∈ run.log.awaited :=
    follows.awaited.mem_iff.2 List.mem_cons_self
  have others : (run.log.awaited.erase flight.revision).Perm (flights.map (·.revision)) := by
    have rest := follows.awaited.erase flight.revision
    rwa [List.map_cons, List.erase_cons_head] at rest
  have before (revision : Revision) (said : Response) :=
    (follows.answered revision said).trans (or_congr_left (List.exists_mem_cons_iff _ _ _))
  cases logged with
  | @answered response merged came =>
    exact { follows with
      editor := rfl
      orderly := ⟨waiting, follows.orderly⟩
      awaited := others
      answered := by
        intro revision said
        have here : (revision, said) = (flight.revision, response) ↔
            flight.revision = revision ∧ flight.outcome = .ok said := by
          rw [came, Prod.mk.injEq, Except.ok.injEq, eq_comm, eq_comm (a := said)]
        rw [Log.responses, List.mem_cons, here, or_left_comm, ← or_assoc]
        exact before revision said
      requested := by
        intro triggers quiet
        rw [kept]
        exact follows.requested triggers quiet }
  | failed came =>
    exact { follows with
      editor := rfl
      orderly := ⟨waiting, follows.orderly⟩
      awaited := others
      answered := by
        intro revision said
        refine (before revision said).trans (or_congr_left (or_iff_right ?_))
        rw [came]
        rintro ⟨-, ⟨⟩⟩
      requested := by
        intro triggers quiet
        rw [kept]
        exact follows.requested triggers quiet }

theorem receive {flight : Flight}
    (follows : Follows server triggered (flight :: flights) session run) :
    Follows server triggered flights (session.receive flight) (run.step flight.operation) := by
  have landed {event : Event} (logged : flight.Logged event) (announced : List Update)
      (validation : ValidationState) :=
    have kept : Editor.revision { run.editor with validation := validation } =
        run.editor.revision := rfl
    follows.landed logged announced kept
  rw [Session.receive, Flight.operation, follows.editor]
  cases came : flight.outcome with
  | ok response =>
    rcases run.editor.acceptValidation_cases flight.revision response with
      ⟨tree, -, -, merged⟩ | ⟨-, dropped⟩
    · simp only [Run.step, merged]
      exact landed (.answered came) _ _
    · simp only [Run.step, dropped]
      exact landed (.answered came) _ _
  | error failure =>
    cases result : run.editor.validation.recordFailure flight.revision with
    | mk recorded validation =>
      simp only [Run.step, Editor.validationFailed, result]
      cases recorded with
      | true => exact landed (.failed came) _ _
      | false => exact landed (.failed came) _ _

/-! ## Time -/

/-- Replies arrive one after the other, whatever the clock says. -/
theorem receiveAll (due : List Flight)
    (follows : Follows server triggered (due ++ flights) session run) :
    ∃ operations, Follows server triggered flights (due.foldl receiveAt session)
      (run.steps operations) := by
  induction due generalizing session run with
  | nil => exact ⟨[], follows⟩
  | cons flight rest ih =>
    have clocked : Follows server triggered (flight :: (rest ++ flights))
        { session with clock := flight.due } run := { follows with }
    obtain ⟨operations, after⟩ := ih clocked.receive
    exact ⟨flight.operation :: operations, after⟩

theorem deliver (follows : Follows server triggered session.inFlight session run) (time : Nat) :
    ∃ operations, Follows server triggered (session.deliver time).inFlight (session.deliver time)
      (run.steps operations) := by
  obtain ⟨due, later, parts, eq⟩ := session.deliver_eq time
  rw [eq, inFlight_foldl_receiveAt]
  have split : Follows server triggered (due ++ later) { session with inFlight := later } run :=
    { follows.perm parts.symm with }
  exact split.receiveAll due

/-- When the quiet time ends, the replies that are due by then have arrived, and the current tree is
sent. -/
theorem elapse (follows : Follows server triggered session.inFlight session run) (time : Nat) :
    ∃ operations, Follows server triggered (session.advanceTo server time).inFlight
      (session.advanceTo server time) (run.steps operations) := by
  rw [advanceTo]
  cases session.deadline with
  | none =>
    obtain ⟨operations, delivered⟩ := follows.deliver time
    exact ⟨operations, { delivered with }⟩
  | some deadline =>
    by_cases ends : deadline ≤ time
    · obtain ⟨before, delivered⟩ := follows.deliver deadline
      let clocked : Session := { session.deliver deadline with clock := deadline }
      have follows : Follows server triggered clocked.inFlight clocked (run.steps before) :=
        { delivered with }
      obtain ⟨after, last⟩ := follows.dispatch.deliver time
      refine ⟨before ++ .beginValidation :: after, ?_⟩
      rw [Run.steps, List.foldl_append]
      simp only [if_pos ends]
      exact { last.mono fun _ => trivial with }
    · obtain ⟨operations, delivered⟩ := follows.deliver time
      simp only [if_neg ends]
      exact ⟨operations, { delivered with }⟩

/-! ## Schedules -/

theorem perform (follows : Follows server triggered session.inFlight session run) (call : Call) :
    ∃ operations, Follows server (session.Triggers call ∨ triggered)
      (session.perform server call).inFlight (session.perform server call)
        (run.steps operations) := by
  cases call with
  | apply intent supply => exact ⟨[.apply intent supply], follows.apply intent supply⟩
  | load root =>
    refine ⟨[.load root], ?_⟩
    rw [Session.perform, Session.load, inFlight_edited]
    exact (follows.edited root).mono fun _ => trivial
  | revalidate =>
    refine ⟨[], ?_⟩
    rw [Session.perform, inFlight_revalidate]
    exact follows.schedule.mono fun _ => trivial
  | wait milliseconds =>
    obtain ⟨operations, after⟩ := follows.elapse (session.clock + milliseconds)
    exact ⟨operations, after.mono fun asked => asked.resolve_left id⟩

/-- What a session does along a schedule is an orderly run of its editor. -/
theorem performAll (follows : Follows server triggered session.inFlight session run)
    (calls : List Call) :
    ∃ operations, Follows server (Triggered server session calls ∨ triggered)
      (session.performAll server calls).inFlight (session.performAll server calls)
        (run.steps operations) := by
  induction calls generalizing session run triggered with
  | nil => exact ⟨[], follows.mono fun asked => asked.resolve_left id⟩
  | cons call rest ih =>
    obtain ⟨before, performed⟩ := follows.perform call
    obtain ⟨after, last⟩ := ih performed
    refine ⟨before ++ after, ?_⟩
    rw [Run.steps, List.foldl_append, Triggered]
    exact last.mono fun asked => or_left_comm.1 (or_assoc.1 asked)

/-- In a quiescent session, the requests for the current revision have been answered. -/
theorem outcome (follows : Follows server triggered session.inFlight session run)
    (sound : Run.Sound run) (latest : Run.Latest run) (quiescent : session.Quiescent)
    (asked : triggered) :
    let revision := session.editor.revision
    ((∃ response, session.Answered server revision response) →
      session.editor.status = .validated ∧
        session.editor.validation.serverRevision = some revision) ∧
    ((∀ response, ¬ session.Answered server revision response) →
      session.editor.status = .failed) := by
  have flights : session.inFlight = [] := quiescent.landed
  have settled : run.log.awaited = [] := by
    have awaited := follows.awaited
    rw [flights] at awaited
    exact awaited.eq_nil
  have answered (response : Response) :
      session.Answered server run.editor.revision response ↔
        (run.editor.revision, response) ∈ run.log.responses := by
    rw [follows.answered, flights]
    simp
  rw [follows.editor]
  constructor
  · rintro ⟨response, said⟩
    have reported : run.editor.revision ∈ run.log.responses.map Prod.fst :=
      List.mem_map_of_mem ((answered response).1 said)
    exact ⟨latest.status_of_response sound reported, latest.merged reported⟩
  · intro unanswered
    refine latest.status_of_failures sound follows.orderly ?_
      (follows.requested asked quiescent.quiet) (settled ▸ List.not_mem_nil)
    intro reported
    obtain ⟨⟨revision, response⟩, said, now⟩ := List.mem_map.1 reported
    exact unanswered response ((answered response).2 (now ▸ said))

end Follows

/-! ## The outcome -/

/-- **How a session comes to rest.** Take a session over an editor in which nothing has happened,
any server and any schedule of edits, loads and calls for validation. When something has been asked
for, no quiet time is under way and no reply is on its way, the current tree is validated, and the
merged revision is the current one, if a request for the current revision was answered by a
response. Otherwise validation has failed. It is never pending or idle. -/
theorem status_of_quiescent (server : Server) (timing : SessionConfig) {root : Node}
    {config : EditorConfig} {setup : List Operation} {calls : List Call} {first session : Session}
    (fresh : (Run.of root config setup).log = [])
    (started : first = start timing (Run.of root config setup).editor)
    (reached : session = first.performAll server calls)
    (asked : Triggered server first calls) (quiescent : session.Quiescent) :
    let revision := session.editor.revision
    ((∃ response, session.Answered server revision response) →
      session.editor.status = .validated ∧
        session.editor.validation.serverRevision = some revision) ∧
    ((∀ response, ¬ session.Answered server revision response) →
      session.editor.status = .failed) ∧
    session.editor.status ≠ .pending ∧ session.editor.status ≠ .idle := by
  intro revision
  have begun : Follows server False first.inFlight first (Run.of root config setup) := by
    rw [started]
    exact .start fresh server timing
  obtain ⟨operations, follows⟩ := begun.performAll calls
  have run : (Run.of root config setup).steps operations =
      Run.of root config (setup ++ operations) := (List.foldl_append).symm
  rw [← reached, run] at follows
  have sound : Run.Sound (Run.of root config (setup ++ operations)) := .of root config _
  have latest := Run.Latest.of root config (setup ++ operations) follows.orderly
  obtain ⟨validated, failed⟩ := follows.outcome sound latest quiescent (Or.inl asked)
  refine ⟨validated, failed, ?_⟩
  by_cases answered : ∃ response, session.Answered server revision response
  · rw [(validated answered).1]
    exact ⟨nofun, nofun⟩
  · rw [failed fun response said => answered ⟨response, said⟩]
    exact ⟨nofun, nofun⟩

/-- The first request fails, and validation with it; the second one is answered. -/
theorem status_of_quiescent_of_two_requests :
    let server := Server.ofReplies [⟨50, .error (.transport "down")⟩, ⟨10, .ok Response.empty⟩]
    let first := start .default (Run.of default .default []).editor
    let once := first.performAll server [.load default, .wait 350]
    let twice := first.performAll server [.load default, .wait 350, .revalidate, .wait 310]
    once.Quiescent ∧ once.editor.status = .failed ∧
      twice.Quiescent ∧ twice.editor.status = .validated ∧
        twice.editor.validation.serverRevision = some 1 := by
  intro server first once twice
  have resting : once.Quiescent := ⟨by decide +kernel, by decide +kernel⟩
  have resting' : twice.Quiescent := ⟨by decide +kernel, by decide +kernel⟩
  have unanswered (response : Response) :
      ¬ once.Answered server once.editor.revision response := by
    rintro ⟨number, dispatch, found, -, said⟩
    obtain ⟨bound, -⟩ := List.getElem?_eq_some_iff.1 found
    obtain rfl : number = 0 := Nat.lt_one_iff.1 ((by decide +kernel : once.sent.length = 1) ▸ bound)
    cases said
  have answered : ∃ response, twice.Answered server twice.editor.revision response := by
    have second : twice.sent[1]?.map (·.request.revision) = some twice.editor.revision := by
      decide +kernel
    obtain ⟨dispatch, found, now⟩ := Option.map_eq_some_iff.1 second
    exact ⟨Response.empty, 1, dispatch, found, now, rfl⟩
  have fresh : (Run.of default .default []).log = [] := rfl
  have rests := status_of_quiescent server .default fresh rfl
    (rfl : once = first.performAll server _) (Or.inl trivial) resting
  have rests' := status_of_quiescent server .default fresh rfl
    (rfl : twice = first.performAll server _) (Or.inl trivial) resting'
  have now : twice.editor.revision = 1 := by decide +kernel
  obtain ⟨validated, merged⟩ := rests'.1 answered
  exact ⟨resting, rests.2.1 unanswered, resting', validated, merged.trans (congrArg some now)⟩

end Session

end RuleEditor
