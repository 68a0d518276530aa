import RuleEditor.Path.Tree
import RuleEditor.Validation.Error

/-!
# Views

The tree as it is shown: every node with its path, its errors and its evaluation. A view has
exactly the shape of its tree; annotations at paths that lead nowhere do not appear in it.
-/

namespace RuleEditor

/-- A node as it is shown. -/
structure ViewNode where
  node : Node
  path : Path
  errors : List EvaluationError
  evaluation : Option NodeEvaluation
  children : List ViewNode
  named : List (String × ViewNode)

namespace ViewNode

/-! ## Building -/

mutual

/-- The view of the node at `path`. -/
def build (errors : PathErrors) (evaluations : PathEvaluations) (path : Path) : Node → ViewNode
  | ⟨id, name, constant, children, named⟩ =>
    ⟨⟨id, name, constant, children, named⟩, path, errors.errorsAt path, evaluations.get? path,
      buildChildren errors evaluations path 0 children, buildNamed errors evaluations path named⟩

def buildChildren (errors : PathErrors) (evaluations : PathEvaluations) (path : Path)
    (index : Nat) : List Node → List ViewNode
  | [] => []
  | child :: rest =>
    build errors evaluations (path.child index) child
      :: buildChildren errors evaluations path (index + 1) rest

def buildNamed (errors : PathErrors) (evaluations : PathEvaluations) (path : Path) :
    List (String × Node) → List (String × ViewNode)
  | [] => []
  | (key, child) :: rest =>
    (key, build errors evaluations (path.named key) child)
      :: buildNamed errors evaluations path rest

end

/-- The view of a tree. -/
def ofTree (root : Node) (errors : PathErrors) (evaluations : PathEvaluations) : ViewNode :=
  build errors evaluations Path.root root

/-! ## Reading -/

def hasErrors (view : ViewNode) : Bool := !view.errors.isEmpty

def step? (view : ViewNode) : Segment → Option ViewNode
  | .child index => view.children[index]?
  | .named key => Entries.get? key view.named

/-- The view of the node that a path leads to. -/
def at? (view : ViewNode) : Path → Option ViewNode
  | [] => some view
  | segment :: rest => (view.step? segment).bind (·.at? rest)

mutual

/-- The view and those below it, each before its operands. -/
def walk : ViewNode → List ViewNode
  | ⟨node, path, errors, evaluation, children, named⟩ =>
    ⟨node, path, errors, evaluation, children, named⟩ :: (walkAll children ++ walkNamed named)

def walkAll : List ViewNode → List ViewNode
  | [] => []
  | view :: rest => walk view ++ walkAll rest

def walkNamed : List (String × ViewNode) → List ViewNode
  | [] => []
  | (_, view) :: rest => walk view ++ walkNamed rest

end

mutual

/-- Whether the node or one below it has errors. -/
def anyErrors : ViewNode → Bool
  | ⟨_, _, errors, _, children, named⟩ =>
    !errors.isEmpty || anyErrorsAll children || anyErrorsNamed named

def anyErrorsAll : List ViewNode → Bool
  | [] => false
  | view :: rest => anyErrors view || anyErrorsAll rest

def anyErrorsNamed : List (String × ViewNode) → Bool
  | [] => false
  | (_, view) :: rest => anyErrors view || anyErrorsNamed rest

end

/-- Whether a node below this one has errors. -/
def hasNestedErrors (view : ViewNode) : Bool :=
  anyErrorsAll view.children || anyErrorsNamed view.named

mutual

/-- The errors of the node and of those below it, each node before its operands. -/
def errorsBelow : ViewNode → List (Path × EvaluationError)
  | ⟨_, path, errors, _, children, named⟩ =>
    errors.map (path, ·) ++ errorsBelowAll children ++ errorsBelowNamed named

def errorsBelowAll : List ViewNode → List (Path × EvaluationError)
  | [] => []
  | view :: rest => errorsBelow view ++ errorsBelowAll rest

def errorsBelowNamed : List (String × ViewNode) → List (Path × EvaluationError)
  | [] => []
  | (_, view) :: rest => errorsBelow view ++ errorsBelowNamed rest

end

mutual

/-- The number of nodes of the view. -/
def size : ViewNode → Nat
  | ⟨_, _, _, _, children, named⟩ => 1 + sizeAll children + sizeNamed named

def sizeAll : List ViewNode → Nat
  | [] => 0
  | view :: rest => size view + sizeAll rest

def sizeNamed : List (String × ViewNode) → Nat
  | [] => 0
  | (_, view) :: rest => size view + sizeNamed rest

end

end ViewNode

end RuleEditor
