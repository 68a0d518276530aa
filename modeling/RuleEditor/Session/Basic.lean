import RuleEditor.Editor.Offer
import RuleEditor.Session.Config

/-!
# Sessions

A session is an editor whose tree is validated by a server while it is edited. Every edit, load and
call for validation starts a quiet time anew; when it ends, the current tree is sent to the
server, and the answer is merged when it comes.

**Time.** The session is a function of what happens when: `Session.advance` lets time pass, and all
other operations take none. While time passes, answers arrive and the quiet time ends, in the order
of their times; an answer that arrives just when the quiet time ends comes first.

**Server.** The server is a function from the number and the tree of a request to a reply and its
delay.

**Updates.** Everything that happens is announced. A reader gets the announcements since it last
looked, but no more than the newest `updateCapacity` of them.
-/

namespace RuleEditor

/-- Why the server gave no answer. -/
inductive ServerFailure where
  | transport (message : String)
  | badResponse (message : String)
  deriving DecidableEq

def ServerFailure.message : ServerFailure → String
  | .transport message => "Transport error: " ++ message
  | .badResponse message => "Bad validator response: " ++ message

/-- What comes back for a request, and how many milliseconds later. -/
structure Reply where
  delay : Nat
  outcome : Except ServerFailure Response

/-- The server's reply to the request of some number, counted from zero. -/
abbrev Server := Nat → WireNode → Reply

/-- A server that finds nothing wrong with any tree, and says so at once. -/
def Server.content : Server := fun _ _ => ⟨0, .ok Response.empty⟩

/-- A server that gives the replies of a list in turn, and the last one ever after. -/
def Server.ofReplies (replies : List Reply) : Server := fun number tree =>
  match replies[number]?.or replies.getLast? with
  | some reply => reply
  | none => Server.content number tree

/-- An announcement. -/
inductive Update where
  /-- The tree has been edited. -/
  | edited (revision : Revision)
  /-- The tree has been sent to the server. -/
  | validationStarted (revision : Revision)
  /-- The answer has been merged. -/
  | validated (revision : Revision) (errors : Nat)
  /-- There is no answer, or the tree could not be sent. -/
  | validationFailed (revision : Revision) (error : String)
  deriving DecidableEq

/-- A request that has been sent. -/
structure Dispatch where
  time : Nat
  request : ValidationRequest

/-- A reply on its way. -/
structure Flight where
  due : Nat
  revision : Revision
  outcome : Except ServerFailure Response

structure Session where
  config : SessionConfig
  /-- Milliseconds since the start. -/
  clock : Nat
  editor : Editor
  /-- When the quiet time ends, if it has begun. -/
  deadline : Option Nat
  /-- Replies on their way, by the time of their arrival. -/
  inFlight : List Flight
  /-- The requests sent so far. -/
  sent : List Dispatch
  /-- Everything announced so far. -/
  announced : List Update
  /-- How many of the announcements have been read, or lost. -/
  read : Nat
  isOpen : Bool

namespace Session

/-- The number of announcements that wait for a reader. -/
def updateCapacity : Nat := 64

def start (config : SessionConfig) (editor : Editor) : Session :=
  ⟨config, 0, editor, none, [], [], [], 0, true⟩

def announce (session : Session) (update : Update) : Session :=
  { session with announced := session.announced ++ [update] }

/-! ## Edits -/

/-- Starts the quiet time anew. -/
def schedule (session : Session) : Session :=
  if session.isOpen then
    { session with deadline := some (session.clock + session.config.debounce.toNat) }
  else session

/-- The tree has changed. -/
def edited (session : Session) (editor : Editor) : Session :=
  ({ session with editor := editor }.announce (.edited editor.revision)).schedule

def apply (session : Session) (intent : Intent) : Edit Session := do
  let editor ← session.editor.apply intent
  return session.edited editor

def load (session : Session) (root : Node) : Session := session.edited (session.editor.load root)

/-- Has the current tree validated. -/
def revalidate (session : Session) : Session := session.schedule

/-- Sends nothing any more. Replies on their way still arrive. -/
def shutdown (session : Session) : Session := { session with deadline := none, isOpen := false }

/-! ## Requests and replies -/

/-- Puts a reply among those on their way, behind those that arrive at the same time. -/
def insertFlight (flight : Flight) : List Flight → List Flight
  | [] => [flight]
  | other :: rest =>
    if flight.due < other.due then flight :: other :: rest else other :: insertFlight flight rest

/-- Sends the current tree. -/
def dispatch (server : Server) (session : Session) : Session :=
  let (request, editor) := session.editor.beginValidation
  let session := { session with editor := editor, deadline := none }
  match request with
  | .error error => session.announce (.validationFailed editor.revision error.message)
  | .ok request =>
    let reply := server session.sent.length request.tree
    { session.announce (.validationStarted request.revision) with
      sent := session.sent ++ [⟨session.clock, request⟩]
      inFlight := insertFlight ⟨session.clock + reply.delay, request.revision, reply.outcome⟩
        session.inFlight }

/-- A reply arrives. -/
def receive (session : Session) (flight : Flight) : Session :=
  match flight.outcome with
  | .ok response =>
    match session.editor.acceptValidation flight.revision response with
    | (true, editor) =>
      { session with editor := editor }.announce
        (.validated flight.revision response.annotations.errorCount)
    | (false, editor) => { session with editor := editor }
  | .error failure =>
    match session.editor.validationFailed flight.revision with
    | (true, editor) =>
      { session with editor := editor }.announce
        (.validationFailed flight.revision failure.message)
    | (false, editor) => { session with editor := editor }

/-! ## Time -/

/-- The replies that are due at `time` or before arrive. -/
def deliver (time : Nat) (session : Session) : Session :=
  let (due, later) := session.inFlight.partition (·.due ≤ time)
  due.foldl (fun session flight => { session with clock := flight.due }.receive flight)
    { session with inFlight := later }

/-- Time passes until `time`. The quiet time ends at most once, as nothing in between starts it
anew. -/
def advanceTo (server : Server) (time : Nat) (session : Session) : Session :=
  let session :=
    match session.deadline with
    | some deadline =>
      if deadline ≤ time then
        { session.deliver deadline with clock := deadline }.dispatch server
      else session
    | none => session
  { session.deliver time with clock := time }

/-- The given number of milliseconds passes. -/
def advance (server : Server) (milliseconds : Nat) (session : Session) : Session :=
  session.advanceTo server (session.clock + milliseconds)

/-! ## Reading -/

/-- The announcements since the last look, as far as they are not lost. -/
def updates (session : Session) : List Update :=
  let unread := session.announced.drop session.read
  unread.drop (unread.length - updateCapacity)

/-- The session after a look at the announcements. -/
def looked (session : Session) : Session := { session with read := session.announced.length }

end Session

end RuleEditor
