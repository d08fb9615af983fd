import Polyscan.Results
import Polyscan.Schema.Number

/-! The events of the analyzer and the messages of engines. -/
namespace Polyscan

/-- From the most urgent to the most detailed. -/
inductive LogLevel where
  | error
  | warn
  | info
  | debug
  | fine
  deriving DecidableEq, Repr, Inhabited

namespace LogLevel

def all : List LogLevel := [error, warn, info, debug, fine]

def number : LogLevel → Nat
  | error => 1
  | warn => 2
  | info => 3
  | debug => 4
  | fine => 5

def name : LogLevel → String
  | error => "ERROR"
  | warn => "WARN"
  | info => "INFO"
  | debug => "DEBUG"
  | fine => "FINE"

def ofNumber? (n : Int) : Option LogLevel := all.find? fun l => (l.number : Int) == n

end LogLevel

/-- A share of a whole in hundredths, kept exact, or a number that an engine gave. -/
inductive Percent where
  | share (part whole : Nat)
  | given (x : Double)
  deriving DecidableEq, Repr, Inhabited

def Percent.toDouble : Percent → Double
  | share part whole => .ofRatio false (100 * part) whole
  | given x => x

/-- The kinds of events that listeners choose between. -/
inductive Topic where
  | log
  | engineLog
  | progress
  | results
  deriving DecidableEq, Repr, Inhabited

namespace Topic

def all : List Topic := [log, engineLog, progress, results]

def name : Topic → String
  | log => "LogEvent"
  | engineLog => "EngineLogEvent"
  | progress => "EngineProgressEvent"
  | results => "EngineResultsEvent"

def ofName (name : String) : Except Fault Topic :=
  match all.find? fun t => t.name == name with
  | some t => .ok t
  | none => .error (.raised .value (Text.quoted name ++ " is not a valid EventType"))

end Topic

/-- An event. The type of levels is a parameter, so that events with any level can be published. -/
inductive Event (ℓ : Type) where
  | log (level : ℓ) (message : String)
  | engineLog (engine : String) (level : ℓ) (message : String)
  | progress (engine : String) (percent : Percent)
  | results (results : EngineResults)

def Event.topic {ℓ : Type} : Event ℓ → Topic
  | log .. => .log
  | engineLog .. => .engineLog
  | progress .. => .progress
  | results .. => .results

/-- An event with the reading of the clock when it was published. -/
structure Published (ℓ : Type) where
  tick : Nat
  event : Event ℓ

/-- A message of an engine. -/
inductive EngineMessage where
  | log (level : LogLevel) (message : String)
  | progress (percent : Percent)
  deriving DecidableEq, Repr

namespace Schema

def logLevel (v : Json) : Checked LogLevel := numbered "1, 2, 3, 4 or 5" LogLevel.ofNumber? v

/-- The kinds of messages of engines, by name. -/
def messageKind (v : Json) : Checked String :=
  named [("LogEvent", "LogEvent"), ("ProgressEvent", "ProgressEvent")] v

/-- A log message of an engine, with its kind. -/
def engineLog : Json → Checked (String × LogLevel × String) :=
  object "EngineLogMessage" fun fields =>
    (fun kind level message => (kind, level, message)) <$>
      withDefault fields "type" "LogEvent" messageKind
      <*> required fields "log_level" logLevel
      <*> required fields "message" string

/-- A progress message of an engine, with its kind. -/
def engineProgress : Json → Checked (String × Double) :=
  object "EngineProgressUpdate" fun fields =>
    (fun kind percent => (kind, percent)) <$>
      withDefault fields "type" "ProgressEvent" messageKind
      <*> required fields "percent_complete" number

end Schema

namespace EngineMessage

/-- The log message with a level and a text, if both are valid. -/
def ofLog (level message : Json) : Except Fault EngineMessage := do
  let (_, l, m) ← (Schema.engineLog (.obj [("log_level", level), ("message", message)])).orFault
    "EngineLogMessage"
  pure (.log l m)

/-- The progress message with a percentage, if it is a number. -/
def ofProgress (percent : Json) : Except Fault EngineMessage := do
  let (_, p) ← (Schema.engineProgress (.obj [("percent_complete", percent)])).orFault
    "EngineProgressUpdate"
  pure (.progress (.given p))

/-- The event that a message of an engine is published as. -/
def toEvent (engine : String) : EngineMessage → Event LogLevel
  | log level message => .engineLog engine level message
  | progress percent => .progress engine percent

end EngineMessage

end Polyscan
