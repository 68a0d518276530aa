import Mathlib.Data.List.Chain
import RuleEditor.Proofs.Session.Steps

/-!
# When requests are sent

**Triggers.** An edit that succeeds, a load and a call for validation are triggers. Which calls of a
schedule are triggers, when they come and what tree they leave depends on the editor alone
(`Session.triggers`): nothing that the server says touches the tree.

**Quiet times.** Every trigger starts a quiet time. Those that no later trigger cuts short end
(`Session.ended`), and the session sends exactly the trees that stand at these ends. The run is
followed call by call with the trigger whose quiet time is under way (`Session.Awaits`): a trigger
takes the place of the one before, and when the quiet time ends its tree is served
(`Session.Serves`).

**Trees without a stored form.** At the end of a quiet time such a tree cannot be sent, so that no
request goes out then. A failure is announced instead.

**The description** (`sent_exactly`). Which quiet times end is read off the times of the triggers
(`Session.EndsQuiet`), and the tree is that of the last trigger before (`Session.lastBefore`). So
requests are a quiet time apart, and a burst of triggers is served once.
-/

namespace RuleEditor.Session

variable {server : Server} {session next : Session} {quiet now : Nat}

/-! ## Triggers -/

/-- A call that starts a quiet time: when it comes, and the tree that it leaves. -/
structure Trigger where
  time : Nat
  root : Node
  revision : Revision

/-- The triggers of a schedule that begins at some time with some editor. -/
def triggers (clock : Nat) (editor : Editor) : List Call → List Trigger
  | [] => []
  | .apply intent supply :: calls =>
    match editor.apply intent supply with
    | .ok (edited, _) => ⟨clock, edited.root, edited.revision⟩ :: triggers clock edited calls
    | .error _ => triggers clock editor calls
  | .load root :: calls =>
    let loaded := editor.load root
    ⟨clock, loaded.root, loaded.revision⟩ :: triggers clock loaded calls
  | .revalidate :: calls => ⟨clock, editor.root, editor.revision⟩ :: triggers clock editor calls
  | .wait milliseconds :: calls => triggers (clock + milliseconds) editor calls

theorem le_time_of_mem_triggers {calls : List Call} {clock : Nat} {editor : Editor}
    {trigger : Trigger} (mem : trigger ∈ triggers clock editor calls) : clock ≤ trigger.time := by
  induction calls generalizing clock editor with
  | nil => cases mem
  | cons call calls ih =>
    cases call with
    | apply intent supply =>
      rw [triggers] at mem
      split at mem
      · rcases List.mem_cons.1 mem with rfl | later
        · exact Nat.le_refl _
        · exact ih later
      · exact ih mem
    | load root =>
      rcases List.mem_cons.1 mem with rfl | later
      · exact Nat.le_refl _
      · exact ih later
    | revalidate =>
      rcases List.mem_cons.1 mem with rfl | later
      · exact Nat.le_refl _
      · exact ih later
    | wait milliseconds => exact Nat.le_trans (Nat.le_add_right _ _) (ih mem)

/-- Triggers come one after the other. -/
theorem triggers_ordered (clock : Nat) (editor : Editor) (calls : List Call) :
    (triggers clock editor calls).Pairwise (·.time ≤ ·.time) := by
  induction calls generalizing clock editor with
  | nil => exact .nil
  | cons call calls ih =>
    cases call with
    | apply intent supply =>
      rw [triggers]
      split
      · exact .cons (fun _ => le_time_of_mem_triggers) (ih _ _)
      · exact ih _ _
    | load root => exact .cons (fun _ => le_time_of_mem_triggers) (ih _ _)
    | revalidate => exact .cons (fun _ => le_time_of_mem_triggers) (ih _ _)
    | wait milliseconds => exact ih _ _

/-- What a trigger leads to when its quiet time ends, if its tree has a stored form. -/
def Trigger.dispatch? (quiet : Nat) (trigger : Trigger) : Option Dispatch :=
  match trigger.root.toWire with
  | .ok tree => some ⟨trigger.time + quiet, ⟨trigger.revision, tree⟩⟩
  | .error _ => none

theorem Trigger.dispatch?_eq_some_iff {trigger : Trigger} {dispatch : Dispatch} :
    trigger.dispatch? quiet = some dispatch ↔
      dispatch.time = trigger.time + quiet ∧ dispatch.request.revision = trigger.revision ∧
        trigger.root.toWire = .ok dispatch.request.tree := by
  rw [Trigger.dispatch?]
  obtain ⟨time, revision, tree⟩ := dispatch
  cases trigger.root.toWire with
  | error error => exact ⟨nofun, nofun⟩
  | ok wire =>
    constructor
    · rintro ⟨⟩
      exact ⟨rfl, rfl, rfl⟩
    · rintro ⟨rfl, rfl, ⟨⟩⟩
      rfl

/-! ## Quiet times that end -/

/-- The triggers whose quiet time has ended by `now`, as none after them came sooner. -/
def ended (quiet now : Nat) : List Trigger → List Trigger
  | [] => []
  | trigger :: rest =>
    if trigger.time + quiet ≤ now ∧ ∀ later ∈ rest, trigger.time + quiet ≤ later.time then
      trigger :: ended quiet now rest
    else ended quiet now rest

theorem mem_of_mem_ended {triggers : List Trigger} {trigger : Trigger}
    (mem : trigger ∈ ended quiet now triggers) :
    trigger ∈ triggers ∧ trigger.time + quiet ≤ now := by
  induction triggers with
  | nil => cases mem
  | cons first rest ih =>
    rw [ended] at mem
    split at mem
    · next ends =>
      rcases List.mem_cons.1 mem with rfl | later
      · exact ⟨List.mem_cons_self, ends.1⟩
      · exact (ih later).imp_left (List.mem_cons_of_mem _)
    · exact (ih mem).imp_left (List.mem_cons_of_mem _)

theorem mem_ended_iff {triggers : List Trigger} {trigger : Trigger} :
    trigger ∈ ended quiet now triggers ↔
      trigger.time + quiet ≤ now ∧ ∃ before after, triggers = before ++ trigger :: after ∧
        ∀ later ∈ after, trigger.time + quiet ≤ later.time := by
  constructor
  · intro mem
    refine ⟨(mem_of_mem_ended mem).2, ?_⟩
    induction triggers with
    | nil => cases mem
    | cons first rest ih =>
      rw [ended] at mem
      split at mem
      · next ends =>
        rcases List.mem_cons.1 mem with rfl | later
        · exact ⟨[], rest, rfl, ends.2⟩
        · obtain ⟨before, after, rfl, last⟩ := ih later
          exact ⟨first :: before, after, rfl, last⟩
      · obtain ⟨before, after, rfl, last⟩ := ih mem
        exact ⟨first :: before, after, rfl, last⟩
  · rintro ⟨passed, before, after, rfl, last⟩
    induction before with
    | nil =>
      rw [List.nil_append, ended, if_pos ⟨passed, last⟩]
      exact List.mem_cons_self
    | cons first before ih =>
      rw [List.cons_append, ended]
      split
      · exact List.mem_cons_of_mem _ ih
      · exact ih

theorem ended_pairwise (quiet now : Nat) (triggers : List Trigger) :
    (ended quiet now triggers).Pairwise fun one other => one.time + quiet ≤ other.time := by
  induction triggers with
  | nil => exact .nil
  | cons first rest ih =>
    rw [ended]
    split
    · next ends => exact .cons (fun later mem => ends.2 later (mem_of_mem_ended mem).1) ih
    · exact ih

/-- Triggers that come a quiet time later do not matter to those before. -/
theorem ended_append {before after : List Trigger}
    (apart : ∀ trigger ∈ before, ∀ later ∈ after, trigger.time + quiet ≤ later.time) :
    ended quiet now (before ++ after) = ended quiet now before ++ ended quiet now after := by
  induction before with
  | nil => rfl
  | cons first before ih =>
    obtain ⟨here, others⟩ := List.forall_mem_cons.1 apart
    have same : (∀ later ∈ before ++ after, first.time + quiet ≤ later.time) ↔
        ∀ later ∈ before, first.time + quiet ≤ later.time := by
      rw [List.forall_mem_append]
      exact and_iff_left here
    rw [List.cons_append, ended, ended, ih others]
    simp only [same]
    split <;> rfl

/-- Of triggers that follow each other within the quiet time, the last one has it end. -/
theorem ended_of_isChain {before : List Trigger} {last : Trigger}
    (close : (before ++ [last]).IsChain fun one other => other.time < one.time + quiet)
    (passed : last.time + quiet ≤ now) : ended quiet now (before ++ [last]) = [last] := by
  induction before with
  | nil => exact if_pos ⟨passed, nofun⟩
  | cons first before ih =>
    obtain ⟨sooner, close⟩ := List.isChain_cons.1 close
    have second : (before ++ [last]).head? = some (before.head?.getD last) := List.head?_concat
    have cut : ¬ ∀ later ∈ before ++ [last], first.time + quiet ≤ later.time := fun uncut =>
      Nat.not_le.2 (sooner _ second) (uncut _ (List.mem_of_head? second))
    rw [List.cons_append, ended, if_neg fun ends => cut ends.2]
    exact ih close

/-- A trigger that comes sooner cuts the quiet time short that is under way. -/
theorem ended_cut {pending : Option Trigger} {trigger : Trigger} {rest : List Trigger}
    (early : ∀ waiting, pending = some waiting → trigger.time < waiting.time + quiet) :
    ended quiet now (pending.toList ++ trigger :: rest) = ended quiet now (trigger :: rest) := by
  cases pending with
  | none => rfl
  | some waiting =>
    refine if_neg fun ends => ?_
    exact Nat.not_le.2 (early waiting rfl) (ends.2 trigger List.mem_cons_self)

/-! ## Following the session -/

/-- Between two states of a session, the trees of some triggers were sent, or announced as
failures. -/
structure Serves (quiet : Nat) (served : List Trigger) (session next : Session) : Prop where
  sent : next.sent = session.sent ++ served.filterMap (·.dispatch? quiet)
  failed : ∀ trigger ∈ served, ∀ error, trigger.root.toWire = .error error →
    .validationFailed trigger.revision error.message ∈ next.announced
  announced : session.announced <+: next.announced

namespace Serves

theorem none (sent : next.sent = session.sent) (announced : session.announced <+: next.announced) :
    Serves quiet [] session next where
  sent := sent.trans (List.append_nil _).symm
  failed := nofun
  announced := announced

theorem trans {last : Session} {served more : List Trigger}
    (first : Serves quiet served session next) (second : Serves quiet more next last) :
    Serves quiet (served ++ more) session last where
  sent := by rw [second.sent, first.sent, List.filterMap_append, List.append_assoc]
  failed := List.forall_mem_append.2
    ⟨fun trigger mem error unstored =>
      second.announced.mem (first.failed trigger mem error unstored), second.failed⟩
  announced := first.announced.trans second.announced

theorem edited (isOpen : session.isOpen = true) (editor : Editor) :
    Serves quiet [] session (session.edited editor) := by
  rw [edited_of_isOpen isOpen]
  exact .none rfl (List.prefix_append _ _)

end Serves

/-- The session is open, and its editor has the tree of an editor that no server answers. -/
structure Holds (quiet : Nat) (editor : Editor) (session : Session) : Prop where
  isOpen : session.isOpen = true
  config : session.config.debounce.toNat = quiet
  same : session.editor.SameDocument editor

/-- The quiet time of a trigger is under way, if of any. -/
structure Awaits (quiet : Nat) (editor : Editor) (pending : Option Trigger) (session : Session) :
    Prop extends Holds quiet editor session where
  deadline : session.deadline = pending.map (·.time + quiet)
  early : ∀ trigger, pending = some trigger → session.clock < trigger.time + quiet
  tree : ∀ trigger, pending = some trigger →
    trigger.root = editor.root ∧ trigger.revision = editor.revision

variable {editor : Editor} {pending : Option Trigger}

namespace Holds

theorem moved (holds : Holds quiet editor session) (unmoved : Unmoved session next) :
    Holds quiet editor next where
  isOpen := unmoved.isOpen.trans holds.isOpen
  config := by rw [unmoved.config, holds.config]
  same := unmoved.editor.trans holds.same

/-- A trigger starts the quiet time anew. -/
theorem schedule (holds : Holds quiet editor session) (positive : 0 < quiet) :
    Awaits quiet editor (some ⟨session.clock, editor.root, editor.revision⟩) session.schedule := by
  rw [schedule_of_isOpen holds.isOpen]
  exact { holds with
    deadline := congrArg (fun quiet => some (session.clock + quiet)) holds.config
    early := by
      rintro trigger ⟨⟩
      exact Nat.lt_add_of_pos_right positive
    tree := by
      rintro trigger ⟨⟩
      exact ⟨rfl, rfl⟩ }

theorem edited (holds : Holds quiet editor session) (positive : 0 < quiet) (root : Node) :
    Awaits quiet (editor.advance root) (some ⟨session.clock, root, editor.revision + 1⟩)
      (session.edited (session.editor.advance root)) := by
  have advanced : Holds quiet (editor.advance root)
      ({ session with editor := session.editor.advance root }.announce
        (.edited (session.editor.advance root).revision)) :=
    { holds with same := holds.same.advance root }
  exact advanced.schedule positive

/-- The quiet time of a trigger ends, and its tree is served. -/
theorem dispatch {trigger : Trigger} (holds : Holds quiet editor session)
    (root : trigger.root = editor.root) (revision : trigger.revision = editor.revision)
    (clock : session.clock = trigger.time + quiet) (server : Server) :
    Awaits quiet editor none (session.dispatch server) ∧
      Serves quiet [trigger] session (session.dispatch server) := by
  rw [← holds.same.root] at root
  rw [← holds.same.revision] at revision
  cases stored : session.editor.root.toWire with
  | ok tree =>
    have sends : trigger.dispatch? quiet =
        some ⟨session.clock, ⟨session.editor.revision, tree⟩⟩ :=
      Trigger.dispatch?_eq_some_iff.2 ⟨clock, revision.symm, root ▸ stored⟩
    rw [dispatch_of_ok stored]
    exact ⟨{ holds with
        same := holds.same.withValidation _
        deadline := rfl
        early := nofun
        tree := nofun },
      { sent := by
          rw [List.filterMap_cons_some sends]
          rfl
        failed := by
          intro other mem error unstored
          cases List.mem_singleton.1 mem
          rw [root, stored] at unstored
          cases unstored
        announced := List.prefix_append _ _ }⟩
  | error error =>
    have sendsNone : trigger.dispatch? quiet = none := by rw [Trigger.dispatch?, root, stored]
    rw [dispatch_of_error stored]
    exact ⟨{ holds with
        same := holds.same.withValidation _
        deadline := rfl
        early := nofun
        tree := nofun },
      { sent := by
          rw [List.filterMap_cons_none sendsNone]
          exact (List.append_nil _).symm
        failed := by
          intro other mem error unstored
          cases List.mem_singleton.1 mem
          rw [root, stored] at unstored
          cases unstored
          rw [revision]
          exact List.mem_append_right _ (List.mem_singleton_self _)
        announced := List.prefix_append _ _ }⟩

end Holds

namespace Awaits

theorem start (timing : SessionConfig) (editor : Editor) :
    Awaits timing.debounce.toNat editor none (Session.start timing editor) :=
  ⟨⟨rfl, rfl, rfl⟩, rfl, nofun, nofun⟩

theorem moved (awaits : Awaits quiet editor pending session) (unmoved : Unmoved session next)
    (early : ∀ trigger, pending = some trigger → next.clock < trigger.time + quiet) :
    Awaits quiet editor pending next :=
  { awaits.toHolds.moved unmoved with
    deadline := unmoved.deadline.trans awaits.deadline
    early := early
    tree := awaits.tree }

/-- Time passes: the quiet time that is under way goes on, or it ends. -/
theorem elapse (awaits : Awaits quiet editor pending session) (server : Server)
    (milliseconds : Nat) :
    (Awaits quiet editor pending (session.advance server milliseconds) ∧
        Serves quiet [] session (session.advance server milliseconds)) ∨
      ∃ trigger, pending = some trigger ∧ trigger.time + quiet ≤ session.clock + milliseconds ∧
        Awaits quiet editor none (session.advance server milliseconds) ∧
          Serves quiet [trigger] session (session.advance server milliseconds) := by
  let time := session.clock + milliseconds
  by_cases ends : ∃ trigger, pending = some trigger ∧ trigger.time + quiet ≤ time
  · obtain ⟨trigger, rfl, passed⟩ := ends
    -- What is due by the end of the quiet time arrives first; it does not touch the tree.
    let due := trigger.time + quiet
    let clocked : Session := { session.deliver due with clock := due }
    have delivered : Unmoved session clocked := { unmoved_deliver session due with }
    obtain ⟨root, revision⟩ := awaits.tree trigger rfl
    obtain ⟨rests, serves⟩ :=
      (awaits.toHolds.moved delivered).dispatch root revision rfl server
    have after : Unmoved (clocked.dispatch server) (session.advance server milliseconds) := by
      rw [advance, advanceTo_of_due awaits.deadline passed]
      exact { unmoved_deliver (clocked.dispatch server) time with }
    have waited : Serves quiet [] session clocked := .none delivered.sent delivered.announced
    have rested : Serves quiet [] (clocked.dispatch server) (session.advance server milliseconds) :=
      .none after.sent after.announced
    exact Or.inr ⟨trigger, rfl, passed, rests.moved after nofun,
      (waited.trans serves).trans rested⟩
  · have early (trigger : Trigger) (waiting : pending = some trigger) :
        time < trigger.time + quiet :=
      Nat.not_le.1 fun due => ends ⟨trigger, waiting, due⟩
    have passed : Unmoved session (session.advance server milliseconds) := by
      refine unmoved_advanceTo fun deadline due => ?_
      obtain ⟨trigger, waiting, rfl⟩ := Option.map_eq_some_iff.1 (awaits.deadline ▸ due)
      exact early trigger waiting
    exact Or.inl ⟨awaits.moved passed early, .none passed.sent passed.announced⟩

end Awaits

theorem clock_le_performAll (server : Server) (session : Session) (calls : List Call) :
    session.clock ≤ (session.performAll server calls).clock := by
  induction calls generalizing session with
  | nil => exact Nat.le_refl _
  | cons call calls ih =>
    refine Nat.le_trans ?_ (ih _)
    cases call with
    | apply intent supply =>
      rw [perform, apply_eq]
      cases session.editor.apply intent supply with
      | error error => exact Nat.le_refl _
      | ok result => exact Nat.le_of_eq (clock_edited session result.1).symm
    | load root => exact Nat.le_of_eq (clock_edited session _).symm
    | revalidate => exact Nat.le_of_eq (clock_schedule session).symm
    | wait milliseconds => exact Nat.le_add_right _ _

/-- Along a schedule, the trees of the triggers are served whose quiet time ends. -/
theorem Awaits.performAll (awaits : Awaits quiet editor pending session) (positive : 0 < quiet)
    (server : Server) (calls : List Call) :
    Serves quiet
      (ended quiet (session.performAll server calls).clock
        (pending.toList ++ triggers session.clock editor calls))
      session (session.performAll server calls) := by
  induction calls generalizing session editor pending with
  | nil =>
    have unended : ended quiet session.clock (pending.toList ++ []) = [] := by
      cases pending with
      | none => rfl
      | some trigger => exact if_neg fun ends => Nat.not_le.2 (awaits.early trigger rfl) ends.1
    exact unended ▸ .none rfl (List.prefix_refl _)
  | cons call calls ih =>
    -- A trigger takes the place of the one whose quiet time is under way.
    have restart {root : Node} {revision : Revision} {editor : Editor} {next : Session}
        (awaits' : Awaits quiet editor (some ⟨session.clock, root, revision⟩) next)
        (clock : next.clock = session.clock) (serves : Serves quiet [] session next) :
        Serves quiet
          (ended quiet (next.performAll server calls).clock
            (pending.toList ++ ⟨session.clock, root, revision⟩ ::
              triggers session.clock editor calls))
          session (next.performAll server calls) := by
      have rest := serves.trans (ih awaits')
      rw [clock] at rest
      rw [ended_cut fun waiting pending => awaits.early waiting pending]
      exact rest
    cases call with
    | apply intent supply =>
      rw [triggers, Session.performAll, List.foldl_cons, perform, apply_eq]
      rcases awaits.same.apply intent supply with
        ⟨error, refused, refused'⟩ | ⟨root, rest, applied, applied'⟩
      · rw [refused, refused']
        exact ih awaits
      · rw [applied, applied']
        exact restart (awaits.toHolds.edited positive root) (clock_edited session _)
          (.edited awaits.isOpen _)
    | load root =>
      exact restart (awaits.toHolds.edited positive root) (clock_edited session _)
        (.edited awaits.isOpen _)
    | revalidate =>
      have served : Serves quiet [] session session.schedule := by
        rw [schedule_of_isOpen awaits.isOpen]
        exact .none rfl (List.prefix_refl _)
      exact restart (awaits.toHolds.schedule positive) (clock_schedule session) served
    | wait milliseconds =>
      rcases awaits.elapse server milliseconds with ⟨goesOn, serves⟩ |
        ⟨trigger, rfl, passed, rests, serves⟩
      · exact serves.trans (ih goesOn)
      · have rest := serves.trans (ih rests)
        have reached := clock_le_performAll server (session.advance server milliseconds) calls
        have ends : trigger.time + quiet ≤
              ((session.advance server milliseconds).performAll server calls).clock ∧
            ∀ later ∈ triggers (session.clock + milliseconds) editor calls,
              trigger.time + quiet ≤ later.time :=
          ⟨Nat.le_trans passed reached,
            fun later mem => Nat.le_trans passed (le_time_of_mem_triggers mem)⟩
        let later := triggers (session.clock + milliseconds) editor calls
        have first : ended quiet _ (trigger :: later) = trigger :: ended quiet _ later :=
          if_pos ends
        exact first ▸ rest

/-! ## The description -/

/-- A trigger comes at a time, and no other one after it within the quiet time. -/
def EndsQuiet (quiet : Nat) (triggers : List Trigger) (time : Nat) : Prop :=
  (∃ trigger ∈ triggers, trigger.time = time) ∧
    ∀ later ∈ triggers, ¬ (time < later.time ∧ later.time < time + quiet)

instance (quiet : Nat) (triggers : List Trigger) (time : Nat) :
    Decidable (EndsQuiet quiet triggers time) := inferInstanceAs (Decidable (_ ∧ _))

/-- The last trigger before a time. -/
def lastBefore (triggers : List Trigger) (time : Nat) : Option Trigger :=
  triggers.findRev? (·.time < time)

/-- Consecutive triggers that follow each other within the quiet time, with no others that near. -/
def IsBurst (quiet : Nat) (triggers burst : List Trigger) : Prop :=
  ∃ before after, triggers = before ++ (burst ++ after) ∧
    burst.IsChain (fun one other => other.time < one.time + quiet) ∧
    (∀ earlier ∈ before, ∀ trigger ∈ burst, earlier.time + quiet ≤ trigger.time) ∧
    ∀ trigger ∈ burst, ∀ later ∈ after, trigger.time + quiet ≤ later.time

variable {given : List Trigger} {trigger last : Trigger} {time : Nat}

theorem lastBefore_eq_some_iff :
    lastBefore given time = some last ↔
      last.time < time ∧ ∃ before after, given = before ++ last :: after ∧
        ∀ later ∈ after, time ≤ later.time := by
  rw [lastBefore, List.findRev?_eq_find?_reverse, List.find?_eq_some_iff_append, decide_eq_true_iff]
  refine and_congr_right fun _ => ⟨?_, ?_⟩
  · rintro ⟨after, before, eq, none⟩
    refine ⟨before.reverse, after.reverse, ?_, fun later mem => ?_⟩
    · rw [← List.reverse_reverse given, eq]
      simp
    · simpa using none later (List.mem_reverse.1 mem)
  · rintro ⟨before, after, rfl, none⟩
    refine ⟨after.reverse, before.reverse, by simp, fun later mem => ?_⟩
    simpa using none later (List.mem_reverse.1 mem)

/-- The quiet time of a trigger ends if it is the last trigger before that end. -/
theorem mem_ended_iff_lastBefore (positive : 0 < quiet) :
    trigger ∈ ended quiet now given ↔
      trigger.time + quiet ≤ now ∧
        lastBefore given (trigger.time + quiet) = some trigger := by
  rw [mem_ended_iff, lastBefore_eq_some_iff]
  exact and_congr_right fun _ => (and_iff_right (Nat.lt_add_of_pos_right positive)).symm

theorem endsQuiet_of_lastBefore (ordered : given.Pairwise (·.time ≤ ·.time))
    (found : lastBefore given (trigger.time + quiet) = some trigger) :
    EndsQuiet quiet given trigger.time := by
  obtain ⟨-, before, after, rfl, none⟩ := lastBefore_eq_some_iff.1 found
  obtain ⟨-, -, earlier⟩ := List.pairwise_append.1 ordered
  refine ⟨⟨trigger, by simp, rfl⟩, fun other mem within => ?_⟩
  rcases List.mem_append.1 mem with first | mem
  · exact Nat.not_lt.2 (earlier other first trigger List.mem_cons_self) within.1
  · rcases List.mem_cons.1 mem with rfl | second
    · exact Nat.lt_irrefl _ within.1
    · exact Nat.not_lt.2 (none other second) within.2

theorem EndsQuiet.lastBefore (ends : EndsQuiet quiet given time) (positive : 0 < quiet)
    (ordered : given.Pairwise (·.time ≤ ·.time)) :
    ∃ last, lastBefore given (time + quiet) = some last ∧ last.time = time := by
  obtain ⟨⟨trigger, mem, rfl⟩, unique⟩ := ends
  have some : (Session.lastBefore given (trigger.time + quiet)).isSome := by
    rw [Session.lastBefore, List.findRev?_eq_find?_reverse, List.find?_isSome]
    exact ⟨trigger, List.mem_reverse.2 mem, decide_eq_true (Nat.lt_add_of_pos_right positive)⟩
  obtain ⟨last, found⟩ := Option.isSome_iff_exists.1 some
  refine ⟨last, found, Nat.le_antisymm ?_ ?_⟩
  · obtain ⟨soon, before, after, rfl, -⟩ := lastBefore_eq_some_iff.1 found
    exact Nat.not_lt.1 fun later => unique last (by simp) ⟨later, soon⟩
  · obtain ⟨-, before, after, rfl, none⟩ := lastBefore_eq_some_iff.1 found
    obtain ⟨-, -, earlier⟩ := List.pairwise_append.1 ordered
    rcases List.mem_append.1 mem with first | mem
    · exact earlier trigger first last List.mem_cons_self
    · rcases List.mem_cons.1 mem with rfl | second
      · exact Nat.le_refl _
      · have passed := none trigger second
        omega

theorem time_of_mem_dispatches {dispatch : Dispatch}
    (mem : dispatch ∈ (ended quiet now given).filterMap (·.dispatch? quiet)) :
    ∃ trigger ∈ given, dispatch.time = trigger.time + quiet := by
  obtain ⟨trigger, ends, sends⟩ := List.mem_filterMap.1 mem
  exact ⟨trigger, (mem_of_mem_ended ends).1, (Trigger.dispatch?_eq_some_iff.1 sends).1⟩

/-- What is sent is the tree of the last trigger before, when its quiet time ends. -/
theorem exists_last_of_mem_dispatches (positive : 0 < quiet)
    (ordered : given.Pairwise (·.time ≤ ·.time)) {dispatch : Dispatch}
    (mem : dispatch ∈ (ended quiet now given).filterMap (·.dispatch? quiet)) :
    ∃ time, EndsQuiet quiet given time ∧ dispatch.time = time + quiet ∧ dispatch.time ≤ now ∧
      ∃ last, lastBefore given dispatch.time = some last ∧
        dispatch.request.revision = last.revision ∧
          last.root.toWire = .ok dispatch.request.tree := by
  obtain ⟨last, served, sends⟩ := List.mem_filterMap.1 mem
  obtain ⟨passed, found⟩ := (mem_ended_iff_lastBefore positive).1 served
  obtain ⟨time, revision, stored⟩ := Trigger.dispatch?_eq_some_iff.1 sends
  exact ⟨last.time, endsQuiet_of_lastBefore ordered found, time, time ▸ passed, last, time ▸ found,
    revision, stored⟩

/-- Of a burst, the tree of the last trigger is sent and nothing else. -/
theorem filter_dispatches_of_isBurst {burst : List Trigger} {first : Trigger} (positive : 0 < quiet)
    (ordered : given.Pairwise (·.time ≤ ·.time)) (isBurst : IsBurst quiet given burst)
    (head : burst.head? = some first) (final : burst.getLast? = some last)
    (passed : last.time + quiet ≤ now) :
    ((ended quiet now given).filterMap (·.dispatch? quiet)).filter
        (fun dispatch => first.time < dispatch.time ∧ dispatch.time ≤ last.time + quiet) =
      (last.dispatch? quiet).toList := by
  obtain ⟨before, after, rfl, close, gap, gap'⟩ := isBurst
  obtain ⟨others, rfl⟩ := List.getLast?_eq_some_iff.1 final
  have first_mem : first ∈ others ++ [last] := List.mem_of_head? head
  have last_mem : last ∈ others ++ [last] := List.mem_append_right _ (List.mem_singleton_self last)
  have spread : first.time ≤ last.time := by
    obtain ⟨-, -, earlier⟩ := List.pairwise_append.1
      (List.pairwise_append.1 (List.pairwise_append.1 ordered).2.1).1
    rcases List.mem_append.1 first_mem with other | same
    · exact earlier first other last (List.mem_singleton_self last)
    · exact Nat.le_of_eq (congrArg Trigger.time (List.mem_singleton.1 same))
  have apart : ∀ earlier ∈ before, ∀ later ∈ (others ++ [last]) ++ after,
      earlier.time + quiet ≤ later.time := by
    intro earlier mem later mem'
    rcases List.mem_append.1 mem' with near | far
    · exact gap earlier mem later near
    · have := gap earlier mem last last_mem
      have := gap' last last_mem later far
      omega
  rw [ended_append apart, ended_append gap', ended_of_isChain close passed, List.filterMap_append,
    List.filterMap_append, List.filter_append, List.filter_append]
  have sooner : ((ended quiet now before).filterMap (·.dispatch? quiet)).filter
      (fun dispatch => first.time < dispatch.time ∧ dispatch.time ≤ last.time + quiet) = [] := by
    refine List.filter_eq_nil_iff.2 fun dispatch mem within => ?_
    obtain ⟨earlier, mem, time⟩ := time_of_mem_dispatches mem
    have := gap earlier mem first first_mem
    have := (of_decide_eq_true within).1
    omega
  have later : ((ended quiet now after).filterMap (·.dispatch? quiet)).filter
      (fun dispatch => first.time < dispatch.time ∧ dispatch.time ≤ last.time + quiet) = [] := by
    refine List.filter_eq_nil_iff.2 fun dispatch mem within => ?_
    obtain ⟨later, mem, time⟩ := time_of_mem_dispatches mem
    have := gap' last last_mem later mem
    have := (of_decide_eq_true within).2
    omega
  have here : ([last].filterMap (·.dispatch? quiet)).filter
      (fun dispatch => first.time < dispatch.time ∧ dispatch.time ≤ last.time + quiet) =
        [last].filterMap (·.dispatch? quiet) := by
    refine List.filter_eq_self.2 fun dispatch mem => decide_eq_true ?_
    obtain ⟨trigger, mem, sends⟩ := List.mem_filterMap.1 mem
    cases List.mem_singleton.1 mem
    have := (Trigger.dispatch?_eq_some_iff.1 sends).1
    omega
  rw [sooner, later, here, List.nil_append, List.append_nil, List.filterMap_cons]
  cases last.dispatch? quiet <;> rfl

/-- **When requests are sent.** Take a session over any editor, with a quiet time that is not zero,
any server and any schedule of edits, loads and calls for validation. A quiet time ends after each
trigger that no other one follows within it. Then the tree that the last trigger before left is sent
with its revision; if the tree has no stored form, nothing is sent at that time, and its failure is
among the announcements. Nothing else is ever sent. So requests are at least a quiet time apart, and
of a burst of triggers the last tree is sent and nothing else. -/
theorem sent_exactly (server : Server) (timing : SessionConfig) (editor : Editor)
    (calls : List Call) (positive : 0 < timing.debounce.toNat) :
    let quiet := timing.debounce.toNat
    let session := (start timing editor).performAll server calls
    let triggers := triggers 0 editor calls
    (∀ time, EndsQuiet quiet triggers time → time + quiet ≤ session.clock →
      ∃ last, lastBefore triggers (time + quiet) = some last ∧
        match last.root.toWire with
        | .ok tree => ⟨time + quiet, ⟨last.revision, tree⟩⟩ ∈ session.sent
        | .error error =>
          (∀ dispatch ∈ session.sent, dispatch.time ≠ time + quiet) ∧
            .validationFailed last.revision error.message ∈ session.announced) ∧
    (∀ dispatch ∈ session.sent, ∃ time, EndsQuiet quiet triggers time ∧
      dispatch.time = time + quiet ∧ dispatch.time ≤ session.clock ∧
        ∃ last, lastBefore triggers dispatch.time = some last ∧
          dispatch.request.revision = last.revision ∧
            last.root.toWire = .ok dispatch.request.tree) ∧
    session.sent.Pairwise (fun one other => one.time + quiet ≤ other.time) ∧
    ∀ burst first last, IsBurst quiet triggers burst → burst.head? = some first →
      burst.getLast? = some last → last.time + quiet ≤ session.clock →
        session.sent.filter
            (fun dispatch => first.time < dispatch.time ∧ dispatch.time ≤ last.time + quiet) =
          (last.dispatch? quiet).toList := by
  intro quiet session triggers
  have serves : Serves quiet (ended quiet session.clock triggers) (start timing editor) session :=
    (Awaits.start timing editor).performAll positive server calls
  have ordered : triggers.Pairwise (·.time ≤ ·.time) := triggers_ordered 0 editor calls
  have sent : session.sent =
      (ended quiet session.clock triggers).filterMap (·.dispatch? quiet) := serves.sent
  refine ⟨fun time ends passed => ?_,
    fun dispatch mem => exists_last_of_mem_dispatches positive ordered (sent ▸ mem), ?_, ?_⟩
  · obtain ⟨last, found, rfl⟩ := ends.lastBefore positive ordered
    have served : last ∈ ended quiet session.clock triggers :=
      (mem_ended_iff_lastBefore positive).2 ⟨passed, found⟩
    refine ⟨last, found, ?_⟩
    cases stored : last.root.toWire with
    | ok tree =>
      rw [sent]
      exact List.mem_filterMap.2
        ⟨last, served, Trigger.dispatch?_eq_some_iff.2 ⟨rfl, rfl, stored⟩⟩
    | error error =>
      refine ⟨fun dispatch mem time => ?_, serves.failed last served error stored⟩
      -- What is sent at that time would be the tree of the same trigger.
      rw [sent] at mem
      obtain ⟨-, -, -, -, other, found', -, stored'⟩ :=
        exists_last_of_mem_dispatches positive ordered mem
      rw [time, found] at found'
      cases found'
      rw [stored] at stored'
      cases stored'
  · rw [sent]
    refine (ended_pairwise quiet session.clock triggers).filterMap _ ?_
    intro one other apart dispatch sends dispatch' sends'
    have := (Trigger.dispatch?_eq_some_iff.1 sends).1
    have := (Trigger.dispatch?_eq_some_iff.1 sends').1
    omega
  · intro burst first last isBurst head final passed
    rw [sent]
    exact filter_dispatches_of_isBurst positive ordered isBurst head final passed

/-- The second trigger cuts the quiet time of the first one short, so that one request is sent. -/
theorem sent_exactly_after_two_triggers :
    let editor := Editor.ofTree default .default
    let calls := [.load default, .wait 200, .revalidate, .wait 350]
    let session := (start .default editor).performAll .content calls
    0 < SessionConfig.default.debounce.toNat ∧
      session.sent.map (fun dispatch => (dispatch.time, dispatch.request.revision)) = [(500, 1)] ∧
        ∃ last, lastBefore (triggers 0 editor calls) 500 = some last ∧
          match last.root.toWire with
          | .ok tree => ⟨500, ⟨last.revision, tree⟩⟩ ∈ session.sent
          | .error error =>
            (∀ dispatch ∈ session.sent, dispatch.time ≠ 500) ∧
              .validationFailed last.revision error.message ∈ session.announced := by
  intro editor calls session
  have positive : 0 < SessionConfig.default.debounce.toNat := by decide
  exact ⟨positive, by decide +kernel,
    (sent_exactly .content .default editor calls positive).1 200 (by decide +kernel)
      (by decide +kernel)⟩

/-- What is not a number has no stored form, so that nothing is sent when the quiet time ends. -/
theorem not_sent_of_nan :
    let editor := Editor.ofTree default .default
    let nan : Node := ⟨0, .constant, some (.float .nan), [], []⟩
    let calls := [.load nan, .wait 350]
    let session := (start .default editor).performAll .content calls
    EndsQuiet SessionConfig.default.debounce.toNat (triggers 0 editor calls) 0 ∧
      0 + SessionConfig.default.debounce.toNat ≤ session.clock ∧
        ¬ ∃ dispatch ∈ session.sent, dispatch.time = 0 + SessionConfig.default.debounce.toNat := by
  intro editor nan calls session
  have none : session.sent = [] := List.isEmpty_iff.1 (by decide +kernel)
  refine ⟨by decide +kernel, by decide +kernel, ?_⟩
  rintro ⟨dispatch, mem, -⟩
  rw [none] at mem
  cases mem

end RuleEditor.Session
