import RuleEditor.Node.Basic
import RuleEditor.Path.Basic

/-!
# Paths in a tree

**Looking up.** `Node.at?` follows a path. A path that leads to no node of the tree is stale.

**Listing.** `Node.walk` lists every node with its path, each node before its operands, and the
positional operands before the named ones.

**Changing.** `Node.put?` replaces the node that a path leads to. The nodes above it keep their
identities, and so does every node that is not below it. `Node.remove` takes a node out, or leaves
a placeholder where its place has a meaning of its own.
-/

namespace RuleEditor

/-- A path that leads nowhere in the tree to which it was applied. -/
structure StalePath where
  path : Path
  deriving DecidableEq

def StalePath.message (stale : StalePath) : String := "stale path: " ++ stale.path.text

namespace Node

/-! ## Looking up -/

def step? (node : Node) : Segment → Option Node
  | .child index => node.child? index
  | .named key => node.slot? key

/-- The node that a path leads to. -/
def at? (node : Node) : Path → Option Node
  | [] => some node
  | segment :: rest => (node.step? segment).bind (·.at? rest)

/-! ## Listing -/

mutual

/-- The nodes of a tree with their paths, which all start with `path`. -/
def walkFrom (path : Path) : Node → List (Path × Node)
  | ⟨id, name, constant, children, named⟩ =>
    (path, ⟨id, name, constant, children, named⟩)
      :: (walkChildren path 0 children ++ walkNamed path named)

/-- The nodes below the operands from position `index` on. -/
def walkChildren (path : Path) (index : Nat) : List Node → List (Path × Node)
  | [] => []
  | child :: rest => walkFrom (path.child index) child ++ walkChildren path (index + 1) rest

def walkNamed (path : Path) : List (String × Node) → List (Path × Node)
  | [] => []
  | (key, child) :: rest => walkFrom (path.named key) child ++ walkNamed path rest

end

/-- Every node of the tree with its path. -/
def walk (node : Node) : List (Path × Node) := walkFrom Path.root node

/-! ## Changing -/

/-- Replaces the operand that a segment leads to. -/
def setStep (node : Node) (operand : Node) : Segment → Node
  | .child index => { node with children := node.children.set index operand }
  | .named key => { node with named := Entries.store key operand node.named }

/-- Replaces the node that a path leads to, if it leads to one. -/
def put? (node new : Node) : Path → Option Node
  | [] => some new
  | segment :: rest => do
    let operand ← node.step? segment
    let operand ← operand.put? new rest
    return node.setStep operand segment

/-- Replaces the node that a path leads to. -/
def put (root : Node) (path : Path) (new : Node) : Except StalePath Node :=
  match root.put? new path with
  | some root => .ok root
  | none => .error ⟨path⟩

/-- The node that a path leads to. -/
def get (root : Node) (path : Path) : Except StalePath Node :=
  match root.at? path with
  | some node => .ok node
  | none => .error ⟨path⟩

/-- Adds an operand behind the positional ones of the node that a path leads to. -/
def append (root : Node) (path : Path) (operand : Node) : Except StalePath Node := do
  let node ← root.get path
  root.put path { node with children := node.children ++ [operand] }

/-- Whether the node may have any number of positional operands. -/
def isVariadic (node : Node) : Bool :=
  match node.function? with
  | some name => Name.arity name = .variadic
  | none => false

/-- Takes out the node that a path leads to. Only an operand of a node with any number of operands
goes without a trace; every other place, the root included, is filled with a placeholder. -/
def remove (root : Node) (path : Path) : StateT Nat (Except StalePath) Node := fun next =>
  match path.parent?, path.last? with
  | some parentPath, some (.child index) => do
    let parent ← root.get parentPath
    if parent.children.length ≤ index then
      throw ⟨path⟩
    if parent.isVariadic then
      let root ← root.put parentPath { parent with children := parent.children.eraseIdx index }
      return (root, next)
    else
      let (blank, next) := undefined next
      let root ← root.put parentPath { parent with children := parent.children.set index blank }
      return (root, next)
  | some _, _ => do
    let (blank, next) := undefined next
    let root ← root.put path blank
    return (root, next)
  | none, _ => .ok (undefined next)

end Node

end RuleEditor
