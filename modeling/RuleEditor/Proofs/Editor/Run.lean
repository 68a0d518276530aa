import RuleEditor.Editor.Basic
import RuleEditor.Proofs.Validation.State

/-!
# Runs of an editor

**Operations.** A run starts with a new editor and performs operations, in any order and with any
arguments. New identities come from a supply that all editors share, so an edit finds it at any
point.

**History.** A run keeps the tree of every revision, and a log of what a caller sees: the edits, the
requests and what became of them. The log begins with what happened last, so that everything that is
read off it is defined by recursion towards the start of the run.

**Steps.** `Run.Step` lists what an operation can do to a run. Every fact about all runs is proved
for its constructors once and carried along a run by `Run.steps_induction`. A fact about the tree
alone needs a case for edits and one for loaded trees (`Run.steps_keep`).
-/

namespace RuleEditor

/-! ## Operations and their history -/

/-- What can be done with an editor. -/
inductive Operation where
  /-- Carries out an edit, which takes new identities from `supply` on. -/
  | apply (intent : Intent) (supply : Nat)
  | load (root : Node)
  | withContext (context : Context)
  | setMode (mode : EditorMode)
  | beginValidation
  | acceptValidation (revision : Revision) (response : Response)
  | validationFailed (revision : Revision)

/-- What a caller sees. -/
inductive Event where
  /-- A tree became the next revision. -/
  | edited (root : Node)
  /-- The tree of a revision was handed out as a request. -/
  | requested (revision : Revision)
  /-- There was no request for a revision, as its tree has no stored form. -/
  | unsendable (revision : Revision)
  /-- A response was handed in, and merged or dropped. -/
  | answered (revision : Revision) (response : Response) (merged : Bool)
  /-- A request was said to have failed. -/
  | failed (revision : Revision)

/-- Events, the last one first. -/
abbrev Log := List Event

/-- An editor and its history. -/
structure Run where
  editor : Editor
  /-- The tree of each revision. -/
  trees : List Node
  log : Log

namespace Run

def start (root : Node) (config : EditorConfig) : Run := ⟨Editor.ofTree root config, [root], []⟩

/-- The tree of the editor is that of a new revision. -/
def edited (run : Run) (editor : Editor) : Run :=
  ⟨editor, run.trees ++ [editor.root], .edited editor.root :: run.log⟩

def step (run : Run) : Operation → Run
  | .apply intent supply =>
    match run.editor.apply intent supply with
    | .ok (editor, _) => run.edited editor
    | .error _ => run
  | .load root => run.edited (run.editor.load root)
  | .withContext context => { run with editor := run.editor.withContext context }
  | .setMode mode => { run with editor := run.editor.setMode mode }
  | .beginValidation =>
    match run.editor.beginValidation with
    | (.ok request, editor) => ⟨editor, run.trees, .requested request.revision :: run.log⟩
    | (.error _, editor) => ⟨editor, run.trees, .unsendable run.editor.revision :: run.log⟩
  | .acceptValidation revision response =>
    match run.editor.acceptValidation revision response with
    | (merged, editor) => ⟨editor, run.trees, .answered revision response merged :: run.log⟩
  | .validationFailed revision =>
    ⟨(run.editor.validationFailed revision).2, run.trees, .failed revision :: run.log⟩

def steps (run : Run) (operations : List Operation) : Run := operations.foldl step run

/-- The run that performs some operations on a new editor. -/
def of (root : Node) (config : EditorConfig) (operations : List Operation) : Run :=
  (start root config).steps operations

end Run

/-! ## What an operation does -/

namespace Editor

theorem apply_eq_ok {editor edited : Editor} {intent : Intent} {supply rest : Nat}
    (h : editor.apply intent supply = .ok (edited, rest)) :
    editor.config.mode ≠ .view ∧ ∃ root,
      editor.root.reduce intent supply = .ok (root, rest) ∧ edited = editor.advance root := by
  by_cases view : editor.config.mode = .view
  · rw [apply, if_pos view] at h
    cases h
  · refine ⟨view, ?_⟩
    rw [apply, if_neg view] at h
    change (editor.root.reduce intent supply >>= fun result =>
      Except.ok (editor.advance result.1, result.2)) = .ok (edited, rest) at h
    cases reduced : editor.root.reduce intent supply with
    | error error =>
      rw [reduced] at h
      cases h
    | ok result =>
      rw [reduced] at h
      cases h
      exact ⟨result.1, rfl, rfl⟩

/-- A response is merged with the tree that it is about, or dropped and nothing changes. -/
theorem acceptValidation_cases (editor : Editor) (revision : Revision) (response : Response) :
    (∃ tree, editor.validation.isSuperseded revision = false ∧
        editor.validation.tree? revision = some tree ∧
        editor.acceptValidation revision response =
          (true, { editor with validation := editor.validation.merge revision response tree })) ∨
      ((editor.validation.isSuperseded revision = false →
          editor.validation.tree? revision = none) ∧
        editor.acceptValidation revision response = (false, editor)) := by
  rw [acceptValidation]
  cases h : editor.validation.accept? revision response with
  | none => exact Or.inr ⟨ValidationState.accept?_eq_none h, rfl⟩
  | some validation =>
    obtain ⟨fresh, tree, known, rfl⟩ := ValidationState.accept?_eq_some h
    exact Or.inl ⟨tree, fresh, known, rfl⟩

end Editor

namespace Run

/-- The state of validation becomes another one, and an event is logged. -/
def record (run : Run) (validation : ValidationState) (event : Event) : Run :=
  ⟨{ run.editor with validation := validation }, run.trees, event :: run.log⟩

/-- What an operation can do to a run. -/
inductive Step (run : Run) : Run → Prop
  | refused : Step run run
  | edited (root : Node) : Step run (run.edited (run.editor.advance root))
  | context (context : Context) :
      Step run { run with editor := run.editor.withContext context }
  | mode (mode : EditorMode) : Step run { run with editor := run.editor.setMode mode }
  | requested :
      Step run (run.record (run.editor.validation.markPending run.editor.revision)
        (.requested run.editor.revision))
  | unsendable :
      Step run (run.record
        ((run.editor.validation.markPending run.editor.revision).recordFailure
          run.editor.revision).2
        (.unsendable run.editor.revision))
  | merged {revision : Revision} {response : Response} {tree : Node}
      (fresh : run.editor.validation.isSuperseded revision = false)
      (known : run.editor.validation.tree? revision = some tree) :
      Step run (run.record (run.editor.validation.merge revision response tree)
        (.answered revision response true))
  | dropped {revision : Revision} {response : Response}
      (unknown : run.editor.validation.isSuperseded revision = false →
        run.editor.validation.tree? revision = none) :
      Step run (run.record run.editor.validation (.answered revision response false))
  | failed (revision : Revision) :
      Step run (run.record (run.editor.validation.recordFailure revision).2 (.failed revision))

theorem step_spec (run : Run) (operation : Operation) : Step run (run.step operation) := by
  cases operation with
  | apply intent supply =>
    rw [step]
    split
    · next editor rest h =>
      obtain ⟨-, root, -, rfl⟩ := Editor.apply_eq_ok h
      exact .edited root
    · exact .refused
  | load root => exact .edited root
  | withContext context => exact .context context
  | setMode mode => exact .mode mode
  | beginValidation =>
    rw [step, Editor.beginValidation]
    cases run.editor.root.toWire with
    | ok tree => exact .requested
    | error error => exact .unsendable
  | acceptValidation revision response =>
    rcases run.editor.acceptValidation_cases revision response with
      ⟨tree, fresh, known, eq⟩ | ⟨unknown, eq⟩
    · rw [step, eq]
      exact .merged fresh known
    · rw [step, eq]
      exact .dropped unknown
  | validationFailed revision => exact .failed revision

/-- What holds at the start of a run and is kept by every step holds after it. -/
theorem steps_induction {P : Run → Prop} (hstep : ∀ {run next : Run}, Step run next → P run → P next)
    {run : Run} (h : P run) (operations : List Operation) : P (run.steps operations) := by
  induction operations generalizing run with
  | nil => exact h
  | cons operation rest ih => exact ih (hstep (run.step_spec operation) h)

/-- What edits keep, and what the trees that are loaded have, holds of the tree of every run that
starts with it. No other operation changes the tree. -/
theorem steps_keep {P : Node → Prop} {Allowed : Operation → Prop}
    (edit : ∀ {root updated : Node} {intent : Intent} {supply rest : Nat}, P root →
      Allowed (.apply intent supply) → root.reduce intent supply = .ok (updated, rest) → P updated)
    (load : ∀ {root : Node}, Allowed (.load root) → P root) {run : Run}
    {operations : List Operation} (holds : P run.editor.root)
    (allowed : ∀ operation ∈ operations, Allowed operation) :
    P (run.steps operations).editor.root := by
  induction operations generalizing run with
  | nil => exact holds
  | cons operation rest ih =>
    obtain ⟨here, later⟩ := List.forall_mem_cons.1 allowed
    refine ih ?_ later
    cases operation with
    | apply intent supply =>
      rw [step]
      split
      · next editor rest applied =>
        obtain ⟨-, root, reduced, rfl⟩ := Editor.apply_eq_ok applied
        exact edit holds here reduced
      · exact holds
    | load root => exact load here
    | withContext context => exact holds
    | setMode mode => exact holds
    | beginValidation =>
      rw [step, Editor.beginValidation]
      cases run.editor.root.toWire <;> exact holds
    | acceptValidation revision response =>
      rw [step, Editor.acceptValidation]
      cases run.editor.validation.accept? revision response <;> exact holds
    | validationFailed revision => exact holds

end Run

end RuleEditor
