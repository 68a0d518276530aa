import RuleEditor.Json.Decode

/-!
# Configuration of a session

The quiet time after an edit, in milliseconds, with its JSON spelling.
-/

namespace RuleEditor

structure SessionConfig where
  /-- How long a session waits after an edit before it has the tree validated. -/
  debounce : UInt64
  deriving DecidableEq

namespace SessionConfig

open Json.Source

def default : SessionConfig := ⟨300⟩

def withDebounce (_ : SessionConfig) (debounce : UInt64) : SessionConfig := ⟨debounce⟩

def toJson (config : SessionConfig) : Json :=
  .object [("debounce_ms", .number (.ofUInt64 config.debounce))]

def decode : Json.Source → Except Json.Fault SessionConfig :=
  record [field "debounce_ms" word fun debounce config => config.withDebounce debounce] default

def parse (text : String) : Except Json.Fault SessionConfig := Json.parse decode text

end SessionConfig

end RuleEditor
