import Polyscan.Event
import Polyscan.PatternRule
import Polyscan.StartPoint
import Polyscan.Work.Basic

/-!
Engines. The built-in one searches for patterns. An external engine is given by its behaviour: its answers
about its rules, and its messages and report when it runs.
-/
namespace Polyscan

/-- An outcome that is there after a number of rounds. -/
structure Delayed (α : Type) where
  rounds : Nat := 0
  outcome : Except Fault α

/-- Waits for an outcome. -/
def Delayed.await {σ α : Type} (d : Delayed α) : Work σ α :=
  (Work.pause d.rounds).bind fun _ => .done d.outcome

/-- The outcome of a run: findings that are typed already, or data still to be checked. -/
inductive Reported where
  | findings (list : List (Finding Int))
  | data (v : Json)

/-- What an engine does in a run: after some rounds it says its messages, of which some may turn out to be
none, and then reports. -/
structure Conduct where
  rounds : Nat := 0
  messages : List (Except Fault EngineMessage) := []
  report : Except Fault Reported

/-- An engine that comes from a plugin. -/
structure ExternalEngine where
  /-- The name that the engine reports for itself. -/
  name : Except Fault String
  describe : Workspace → Delayed Json
  run : List String → RunOptions → Conduct

inductive Engine where
  | patterns (rules : List PatternRule)
  | external (engine : ExternalEngine)

namespace Engine

/-- The name of the built-in engine. -/
def patternsName : String := "regex"

/-- The name that an engine reports for itself. -/
def reportedName : Engine → Except Fault String
  | patterns _ => .ok patternsName
  | external e => e.name

end Engine

/-- The outcome of a description: as the built-in engine gives it, or as data still to be checked. -/
inductive Described where
  | descriptions (list : List RuleDescription)
  | data (v : Json)

end Polyscan
