import RuleEditor.Editor.Config
import RuleEditor.Editor.Intent
import RuleEditor.Validation.Local
import RuleEditor.Validation.State
import RuleEditor.View
import RuleEditor.Wire.Text

/-!
# The editor

An editor holds a tree, the number of edits that led to it, and what validation has to say about
it. Every edit that succeeds and every load makes a new revision, whose structure is validated at
once; an edit that fails changes nothing. Validation by the server is a request, which carries the
tree in stored form, and later an answer or a failure.
-/

namespace RuleEditor

structure Editor where
  config : EditorConfig
  context : Option Context
  root : Node
  revision : Revision
  validation : ValidationState

/-- A tree on its way to the server. -/
structure ValidationRequest where
  revision : Revision
  tree : WireNode

namespace Editor

/-! ## Trees -/

/-- Validates the structure of the current tree. -/
def refresh (editor : Editor) : Editor :=
  { editor with
    validation := editor.validation.setCurrent editor.revision editor.root
      (editor.root.validateLocal editor.config.rootKind editor.context) }

/-- An editor of a tree, at revision zero. -/
def ofTree (root : Node) (config : EditorConfig) : Editor :=
  refresh ⟨config, none, root, 0, ValidationState.empty⟩

/-- An editor of a stored tree. -/
def ofText (text : String) (config : EditorConfig) : StateT Nat (Except WireError) Editor := do
  let root ← Node.deserialize text
  return ofTree root config

/-- Checks references against a context from now on. -/
def withContext (editor : Editor) (context : Context) : Editor :=
  refresh { editor with context := some context }

def setMode (editor : Editor) (mode : EditorMode) : Editor :=
  { editor with config := editor.config.withMode mode }

/-- The tree becomes the next revision. -/
def advance (editor : Editor) (root : Node) : Editor :=
  refresh { editor with root := root, revision := editor.revision + 1 }

/-- Replaces the whole tree. -/
def load (editor : Editor) (root : Node) : Editor := editor.advance root

/-- Carries out an edit. -/
def apply (editor : Editor) (intent : Intent) : Edit Editor := do
  if editor.config.mode = .view then
    throw .readOnly
  let root ← editor.root.reduce intent
  return editor.advance root

/-- Whether the tree says something else than a saved one. -/
def isDirty (editor : Editor) (saved : Node) : Bool := !editor.root.equal saved

def toText (editor : Editor) : Except UnsupportedConstant String := editor.root.serialize

/-! ## Showing -/

def view (editor : Editor) : ViewNode :=
  ViewNode.ofTree editor.root editor.validation.mergedErrors editor.validation.evaluations

def layout (editor : Editor) : Layout := editor.root.layout Path.root

/-- The layout of the node that a path leads to. -/
def layoutAt? (editor : Editor) (path : Path) : Option Layout :=
  (editor.root.at? path).map (·.layout path)

/-! ## Validation by the server -/

/-- Requests the validation of the current tree. A tree without a stored form counts as a request
that failed. -/
def beginValidation (editor : Editor) : Except UnsupportedConstant ValidationRequest × Editor :=
  let pending := editor.validation.markPending editor.revision
  match editor.root.toWire with
  | .ok tree => (.ok ⟨editor.revision, tree⟩, { editor with validation := pending })
  | .error error =>
    (.error error, { editor with validation := (pending.recordFailure editor.revision).2 })

/-- Merges an answer for a revision; the answer may be dropped. -/
def acceptValidation (editor : Editor) (revision : Revision) (response : Response) :
    Bool × Editor :=
  match editor.validation.accept? revision response with
  | some validation => (true, { editor with validation := validation })
  | none => (false, editor)

/-- The request for a revision failed; the failure may not matter any more. -/
def validationFailed (editor : Editor) (revision : Revision) : Bool × Editor :=
  let (recorded, validation) := editor.validation.recordFailure revision
  (recorded, { editor with validation := validation })

def status (editor : Editor) : ValidationStatus := editor.validation.status

def canSave (editor : Editor) : Bool := editor.validation.canSave

end Editor

end RuleEditor
