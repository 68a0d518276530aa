import RuleEditor.Json.Decode
import RuleEditor.Layout

/-!
# Configuration of an editor

What the tree is the root of, and whether it may be edited, with the JSON spelling of both.
-/

namespace RuleEditor

inductive EditorMode where
  /-- The tree is only looked at. -/
  | view
  | edit
  deriving DecidableEq

structure EditorConfig where
  rootKind : RootKind
  mode : EditorMode
  deriving DecidableEq

namespace RootKind

def name : RootKind → String
  | .rule => "rule"
  | .trigger => "trigger"

def ofName? (name : String) : Option RootKind :=
  [RootKind.rule, .trigger].find? (·.name = name)

end RootKind

namespace EditorMode

def name : EditorMode → String
  | .view => "view"
  | .edit => "edit"

def ofName? (name : String) : Option EditorMode :=
  [EditorMode.view, .edit].find? (·.name = name)

end EditorMode

namespace EditorConfig

open Json.Source

/-- A rule that may be edited. -/
def default : EditorConfig := ⟨.rule, .edit⟩

def withRootKind (config : EditorConfig) (kind : RootKind) : EditorConfig :=
  { config with rootKind := kind }

def withMode (config : EditorConfig) (mode : EditorMode) : EditorConfig :=
  { config with mode := mode }

def toJson (config : EditorConfig) : Json :=
  .object [("root_kind", .string config.rootKind.name), ("mode", .string config.mode.name)]

def decode : Json.Source → Except Json.Fault EditorConfig :=
  record
    [field "root_kind" (choice RootKind.ofName?) fun kind config => config.withRootKind kind,
      field "mode" (choice EditorMode.ofName?) fun mode config => config.withMode mode]
    default

def parse (text : String) : Except Json.Fault EditorConfig := Json.parse decode text

end EditorConfig

end RuleEditor
