import Polyscan.Proofs.Performance
import Polyscan.Proofs.Run.Acceptance

/-!
The transcript of a run in which no listener raises: the events that are emitted for each engine in turn, the
engines that are started, and their results. It is computed from the performances of the engines.
-/
namespace Polyscan.Analyzer

/-! ## One engine -/

/-- The rules that an engine is asked to run. -/
def namesFor (selection : Selection) (engine : String) : List String :=
  (selection.rulesFor engine).map Rule.name

/-- What an engine does when it is run with its rules of a selection. -/
def performance (a : Analyzer) (selection : Selection) (o : RunOptions) (engine : String) :
    Performance Reported :=
  match a.slots.get? engine with
  | some s => s.engine.perform a.host (a.filesOf o.workspace) (namesFor selection engine) o
  | none => ⟨[], .error (.unknown engine)⟩

/-- The events that the messages of an engine are forwarded as. -/
def forwarded (a : Analyzer) (selection : Selection) (o : RunOptions) (engine : String) :
    List (Event LogLevel) :=
  match a.slots.get? engine with
  | some s => s.forwarded engine (a.performance selection o engine).messages
  | none => []

/-- The results of an engine: those of a failure if it raises, and else those of its report, unless that is
refused. -/
def verdict (a : Analyzer) (selection : Selection) (o : RunOptions) (engine : String) :
    Except Fault EngineResults :=
  match (a.performance selection o engine).report with
  | .error f => .ok (.failure engine f)
  | .ok r => acceptReported a.host selection engine r

/-- The events before an engine starts. -/
def opening (selection : Selection) (engine : String) : List (Event LogLevel) :=
  [.progress engine (.given (.ofNat 0)),
    .log .debug (Diagnostic.engineRules engine (namesFor selection engine)).text]

/-- The log event of a failure. -/
def failureEvents (r : EngineResults) : List (Event LogLevel) :=
  match r.outcome with
  | .error f => [.log .error (Diagnostic.engineRunFailed r.engine f.text).text]
  | .ok _ => []

/-- The events after the results of an engine are known. -/
def closing (engine : String) (r : EngineResults) : List (Event LogLevel) :=
  failureEvents r ++ [.progress engine (.given (.ofNat 100)), .results r]

/-- All events of an engine. If its report is refused there is no closing. -/
def engineEvents (a : Analyzer) (selection : Selection) (o : RunOptions) (engine : String) :
    List (Event LogLevel) :=
  opening selection engine ++ (a.forwarded selection o engine ++
    match a.verdict selection o engine with
    | .ok r => closing engine r
    | .error _ => [])

/-! ## All engines -/

/-- The engines that are started: all up to the first whose report is refused. -/
def started (a : Analyzer) (selection : Selection) (o : RunOptions) : List String → List String
  | [] => []
  | engine :: rest =>
    engine ::
      match a.verdict selection o engine with
      | .ok _ => a.started selection o rest
      | .error _ => []

/-- The results of all engines, or the first refusal. -/
def verdicts (a : Analyzer) (selection : Selection) (o : RunOptions) (engines : List String) :
    Except Fault (List EngineResults) :=
  engines.mapM (a.verdict selection o)

/-- The events of engines that run one after another. -/
def transcript (a : Analyzer) (selection : Selection) (o : RunOptions) (engines : List String) :
    List (Event LogLevel) :=
  (a.started selection o engines).flatMap (a.engineEvents selection o)

/-- The events of a whole run. -/
def runEvents (a : Analyzer) (selection : Selection) (o : RunOptions) : List (Event LogLevel) :=
  .log .debug (Diagnostic.runOptions o.toJson).text :: a.transcript selection o selection.engineNames

/-- Engines with the rules that they are asked to run. -/
def startsOf (selection : Selection) (engines : List String) : Starts :=
  engines.map fun engine => (engine, namesFor selection engine)

variable {o : RunOptions} {selection : Selection} {a : Analyzer}

theorem mem_engineNames_iff {engine : String} :
    engine ∈ a.engineNames ↔ ∃ s, a.slots.get? engine = some s :=
  OrderedMap.mem_keys_iff

theorem transcript_cons (engine : String) (rest : List String) :
    a.transcript selection o (engine :: rest) = a.engineEvents selection o engine ++
      match a.verdict selection o engine with
      | .ok _ => a.transcript selection o rest
      | .error _ => [] := by
  rw [transcript, started, List.flatMap_cons]
  cases a.verdict selection o engine <;> rfl

theorem verdicts_cons (engine : String) (rest : List String) :
    a.verdicts selection o (engine :: rest) =
      match a.verdict selection o engine with
      | .ok r => (a.verdicts selection o rest).map (r :: ·)
      | .error f => .error f := by
  rw [verdicts, mapM_cons_eq]
  cases a.verdict selection o engine <;> rfl

theorem startsOf_started_cons (engine : String) (rest : List String) :
    startsOf selection (a.started selection o (engine :: rest)) =
      [(engine, namesFor selection engine)] ++
        match a.verdict selection o engine with
        | .ok _ => startsOf selection (a.started selection o rest)
        | .error _ => [] := by
  rw [started]
  cases a.verdict selection o engine <;> rfl

end Polyscan.Analyzer
