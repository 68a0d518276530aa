import RuleEditor.Editor.Basic

/-!
# Editing stored rules

A single edit of a rule in stored form, addressed by the text of a path.
-/

namespace RuleEditor

/-- Why a stored rule was not edited. -/
inductive StoredError where
  | path (error : Path.ParseError)
  | wire (error : WireError)
  | edit (error : EditError)
  deriving DecidableEq

/-- The message of an error. A fault of the JSON text has none. -/
def StoredError.message? : StoredError → Option String
  | .path error => some ("Path error: " ++ error.message)
  | .wire (.unsupported error) => some ("Wire error: " ++ error.message)
  | .wire (.json _) => none
  | .edit error => some ("Edit error: " ++ error.message)

/-- Reads the path, then the rule, and edits the rule. -/
def editStoredTree (text : String) (config : EditorConfig) (path : String)
    (intent : Path → Intent) : StateT Nat (Except StoredError) Node := fun next => do
  let path ← (Path.parse path).mapError .path
  let (editor, next) ← (Editor.ofText text config next).mapError .wire
  let (editor, next) ← (editor.apply (intent path) next).mapError .edit
  return (editor.root, next)

/-- Writes a tree in stored form. -/
def writeStored (root : Node) : Except StoredError String :=
  root.serialize.mapError fun error => .wire (.unsupported error)

/-- The stored form of an edited rule. -/
def editStored (text : String) (config : EditorConfig) (path : String) (intent : Path → Intent) :
    StateT Nat (Except StoredError) String := fun next => do
  let (root, next) ← editStoredTree text config path intent next
  let text ← writeStored root
  return (text, next)

end RuleEditor
