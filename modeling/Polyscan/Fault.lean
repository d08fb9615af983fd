import Polyscan.Diagnostic
import Polyscan.Text.Quoted

/-! Failures by cause. Each cause has a kind, which handlers distinguish, and a text. -/
namespace Polyscan

/-- The kinds of failure that callers distinguish. -/
inductive FaultKind where
  | invalidInput
  | contract
  | plugin
  | pluginLoad
  | listener
  | runtime
  | value
  | type
  | attribute
  | index
  | key
  | lookup
  | overflow
  | validation
  | settings
  | decode
  | fileNotFound
  | notADirectory
  | isADirectory
  | system
  deriving DecidableEq, Repr, Inhabited

/-- The name under which a kind is reported to clients. -/
def FaultKind.name : FaultKind → String
  | .invalidInput => "InvalidInputError"
  | .contract => "EngineContractError"
  | .plugin => "PluginError"
  | .pluginLoad => "PluginLoadError"
  | .listener => "ListenerError"
  | .runtime => "RuntimeError"
  | .value => "ValueError"
  | .type => "TypeError"
  | .attribute => "AttributeError"
  | .index => "IndexError"
  | .key => "KeyError"
  | .lookup => "LookupError"
  | .overflow => "OverflowError"
  | .validation => "ValidationError"
  | .settings => "SettingsError"
  | .decode => "UnicodeDecodeError"
  | .fileNotFound => "FileNotFoundError"
  | .notADirectory => "NotADirectoryError"
  | .isADirectory => "IsADirectoryError"
  | .system => "OSError"

/-- Why an operation failed. -/
inductive Fault where
  /-- A bad workspace or start point. -/
  | invalidInput (message : Diagnostic)
  /-- An engine broke the rules of the interface. -/
  | contract (message : Diagnostic)
  /-- A plugin could not be enumerated. -/
  | plugin (message : Diagnostic)
  /-- A plugin module could not be loaded. -/
  | pluginLoad (message : Diagnostic)
  /-- A rule that a selection does not hold. -/
  | absent (message : Diagnostic)
  /-- A name that a table does not hold. -/
  | unknown (name : String)
  /-- Anything that plugins, engines, listeners or the system raise. -/
  | raised (kind : FaultKind) (text : String)
  deriving Inhabited

namespace Fault

def kind : Fault → FaultKind
  | invalidInput _ => .invalidInput
  | contract _ => .contract
  | plugin _ => .plugin
  | pluginLoad _ => .pluginLoad
  | absent _ => .lookup
  | unknown _ => .key
  | raised kind _ => kind

def text : Fault → String
  | invalidInput message | contract message | plugin message | pluginLoad message
  | absent message => message.text
  | unknown name => Text.quoted name
  | raised _ text => text

end Fault

/-- A whole number in decimal notation, which numbers beyond the limit do not have. -/
def numeral (n : Int) : Except Fault String :=
  if (Nat.toDigits 10 n.natAbs).length ≤ digitLimit then .ok (toString n)
  else .error (.raised .value (overlongText none))

end Polyscan
