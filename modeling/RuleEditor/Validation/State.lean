import RuleEditor.Path.Tree
import RuleEditor.Validation.Response

/-!
# The state of validation

What is known about the current tree: its local errors, which requests have gone to the server, and
the last answer that was merged.

**Merging.** An answer is merged unless one for a later revision has been, or the tree that it is
about is unknown. The trees sent to the server are kept until an answer for them or a later one has
been merged.

**Anchors.** An answer is about the tree that was sent. Each of its annotations is anchored to the
node at its path in that tree, and is visible while the same node is at that path in the current
tree.
-/

namespace RuleEditor

/-- Counts the edits of a tree. -/
abbrev Revision := Nat

def Revision.text (revision : Revision) : String := "r" ++ toString (revision : Nat)

inductive ValidationStatus where
  /-- Nothing has been requested that is not answered. -/
  | idle
  /-- An answer for a later tree than the merged one is awaited. -/
  | pending
  /-- The merged answer is about the current revision. -/
  | validated
  /-- The last request failed. -/
  | failed
  deriving DecidableEq

/-- A merged answer. -/
structure Merged where
  revision : Revision
  annotations : Annotations
  /-- The nodes at the annotated paths, in the tree that the answer is about. -/
  anchors : Keyed Path Nat

namespace Merged

/-- Anchors an answer in the tree that it is about. -/
def ofAnnotations (revision : Revision) (annotations : Annotations) (tree : Node) : Merged :=
  let paths := annotations.errors.keys ++ annotations.evaluations.keys
  ⟨revision, annotations,
    Keyed.ofList (paths.filterMap fun path => (tree.at? path).map fun node => (path, node.id))⟩

/-- Whether the node that a path is anchored to is at that path in a tree. -/
def holds (merged : Merged) (root : Node) (path : Path) : Bool :=
  match merged.anchors.get? path, root.at? path with
  | some id, some node => id = node.id
  | _, _ => false

/-- The annotations whose nodes are where they were. -/
def visibleIn (merged : Merged) (root : Node) : Annotations :=
  ⟨merged.annotations.errors.filter fun path _ => merged.holds root path,
    merged.annotations.evaluations.filter fun path _ => merged.holds root path⟩

end Merged

structure ValidationState where
  current : Revision
  root : Option Node
  /-- The local errors of the current tree. -/
  localErrors : PathErrors
  /-- The latest revision that was sent to the server. -/
  requested : Option Revision
  /-- The latest revision that the server failed to answer. -/
  failed : Option Revision
  /-- The trees that were sent to the server. -/
  submitted : Keyed Revision Node
  server : Option Merged
  /-- The annotations of the merged answer that apply to the current tree. -/
  visible : Annotations

namespace ValidationState

def empty : ValidationState := ⟨0, none, ∅, none, none, ∅, none, Annotations.empty⟩

/-- Brings the visible annotations up to date. -/
def refresh (state : ValidationState) : ValidationState :=
  { state with
    visible :=
      match state.server, state.root with
      | some merged, some root => merged.visibleIn root
      | _, _ => Annotations.empty }

/-- Makes a tree the current one. -/
def setCurrent (state : ValidationState) (revision : Revision) (root : Node)
    (localErrors : PathErrors) : ValidationState :=
  refresh { state with current := revision, root := some root, localErrors := localErrors }

def serverRevision (state : ValidationState) : Option Revision := state.server.map (·.revision)

/-- Whether an answer for a later revision has been merged. -/
def isSuperseded (state : ValidationState) (revision : Revision) : Bool :=
  state.serverRevision.any (revision < ·)

/-- The later of two revisions, the first of which may be missing. -/
def later (known : Option Revision) (revision : Revision) : Revision :=
  match known with
  | some known => max known revision
  | none => revision

/-- The tree of a revision is sent to the server. -/
def markPending (state : ValidationState) (revision : Revision) : ValidationState :=
  { state with
    requested := some (later state.requested revision)
    submitted :=
      match state.root with
      | some root =>
        if revision = state.current then state.submitted.insert revision root
        else state.submitted
      | none => state.submitted }

/-- The tree that an answer for a revision is about. -/
def tree? (state : ValidationState) (revision : Revision) : Option Node :=
  match state.submitted.get? revision with
  | some tree => some tree
  | none => if revision = state.current then state.root else none

/-- Merges an answer, or drops it. -/
def accept? (state : ValidationState) (revision : Revision) (response : Response) :
    Option ValidationState :=
  if state.isSuperseded revision then none
  else
    match state.tree? revision with
    | none => none
    | some tree =>
      some (refresh { state with
        server := some (Merged.ofAnnotations revision response.annotations tree)
        submitted := state.submitted.filter fun sent _ => revision < sent
        failed := state.failed.filter (revision < ·) })

/-- The server failed to answer. The failure is not recorded if it does not matter any more,
because an answer for this or a later revision has been merged or a later one has been sent. -/
def recordFailure (state : ValidationState) (revision : Revision) : Bool × ValidationState :=
  let state := { state with submitted := state.submitted.erase revision }
  if state.serverRevision.any (revision ≤ ·) || state.requested.any (revision < ·) then
    (false, state)
  else (true, { state with failed := some (later state.failed revision) })

/-! ## What is known -/

def serverAnnotations (state : ValidationState) : Option Annotations :=
  state.server.map (·.annotations)

def status (state : ValidationState) : ValidationStatus :=
  if state.serverRevision = some state.current then .validated
  else
    match state.requested with
    | none => .idle
    | some requested =>
      if state.failed.any (requested ≤ ·) then .failed
      else if state.serverRevision.any (requested ≤ ·) then .idle
      else .pending

/-- The errors at a path, local ones first. -/
def errorsAt (state : ValidationState) (path : Path) : List EvaluationError :=
  state.localErrors.errorsAt path ++ state.visible.errors.errorsAt path

/-- The errors at all paths, local ones first. -/
def mergedErrors (state : ValidationState) : PathErrors :=
  state.visible.errors.entries.foldl (fun errors (path, more) => PathErrors.append errors path more)
    state.localErrors

def evaluations (state : ValidationState) : PathEvaluations := state.visible.evaluations

def evaluationAt (state : ValidationState) (path : Path) : Option NodeEvaluation :=
  state.visible.evaluations.get? path

def hasLocalErrors (state : ValidationState) : Bool :=
  state.localErrors.values.any fun errors => !errors.isEmpty

/-- Whether the current tree may be saved: it has no local errors, and the server has found none
in exactly this revision. -/
def canSave (state : ValidationState) : Bool :=
  !state.hasLocalErrors
    && state.server.any fun merged =>
      merged.revision = state.current && merged.annotations.errorCount = 0

end ValidationState

end RuleEditor
