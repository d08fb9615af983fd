import Polyscan.Event
import Polyscan.Text.Case

/-! The process log: its level and handlers, and how events are written to it. -/
namespace Polyscan

/-- Levels of the process log. -/
inductive LogThreshold where
  | critical
  | error
  | warning
  | info
  | debug
  | notSet
  deriving DecidableEq, Repr, Inhabited

namespace LogThreshold

def name : LogThreshold → String
  | critical => "CRITICAL"
  | error => "ERROR"
  | warning => "WARNING"
  | info => "INFO"
  | debug => "DEBUG"
  | notSet => "NOTSET"

/-- The level that a name in any case stands for; unknown names stand for the middle one. -/
def ofName (name : String) : LogThreshold :=
  match Text.upper name with
  | "CRITICAL" | "FATAL" => critical
  | "ERROR" => error
  | "WARNING" | "WARN" => warning
  | "DEBUG" => debug
  | "NOTSET" => notSet
  | _ => info

/-- The level at which an event's message is written. -/
def ofLevel : LogLevel → LogThreshold
  | .error => error
  | .warn => warning
  | .info => info
  | .debug | .fine => debug

end LogThreshold

/-- The root of the process log. -/
structure RootLog where
  threshold : LogThreshold := .warning
  handlers : Nat := 0
  deriving DecidableEq, Repr, Inhabited

namespace RootLog

/-- Sets the level and adds a handler, unless there is a handler already. -/
def setUp (r : RootLog) (level : String) : RootLog :=
  if r.handlers = 0 then ⟨.ofName level, 1⟩ else r

def withoutHandlers (r : RootLog) : RootLog := { r with handlers := 0 }

end RootLog

/-- The line that an event is written as, if it is one that carries a message. -/
def Event.logLine? : Event LogLevel → Option (LogThreshold × String)
  | .log level message => some (.ofLevel level, message)
  | .engineLog engine level message => some (.ofLevel level, "[" ++ engine ++ "] " ++ message)
  | _ => none

end Polyscan
