import Polyscan.Analyzer.Run
import Polyscan.Audit
import Polyscan.Service.Request

/-!
The service: an analyzer that all requests share, and the audit trail of its runs. Runs hold a lock, so that
only one run emits its events at a time; requests for rules take no lock.
-/
namespace Polyscan

structure Service where
  analyzer : Analyzer
  trail : AuditTrail
  /-- The lock of runs. -/
  running : Bool := false

/-- Measurements of a run. -/
structure Timing where
  /-- Its duration in milliseconds. -/
  elapsed : Double
  /-- The time of its end. -/
  timestamp : String

/-- The answer to a request for a run. -/
structure RunReport where
  workspace : Workspace
  results : RunResults
  /-- The events from the start of the request to the end of the run. -/
  events : List (Published LogLevel)
  audit : AuditEntry

namespace Service

/-- Work of the analyzer as work of the service. -/
def analyzing {α : Type} (w : Work Analyzer α) : Work Service α :=
  w.zoom (fun s => s.analyzer) fun a s => { s with analyzer := a }

/-- The workspace of a request for rules. -/
def meant (paths : List String) : Effect Analyzer Workspace :=
  if paths.isEmpty then Analyzer.workspaceHere else Analyzer.createWorkspace paths

/-- Lists the rules that are asked for. -/
def listRules (r : RulesRequest) : Work Service Selection :=
  analyzing do
    let w ←
      if r.workspace.isEmpty then pure none
      else some <$> Work.now (Analyzer.createWorkspace r.workspace)
    Analyzer.select r.selectors w

/-- Subscribes a new listener to all topics. -/
def attend : Work Analyzer Nat := Work.now fun a =>
  let (k, a) := a.listen Topic.all fun _ => none
  (.ok k, a)

/-- Runs work beside a new listener to all topics, and gives the events that it received. -/
def listening {α : Type} (w : Work Analyzer α) : Work Analyzer (α × List (Published LogLevel)) := do
  let k ← attend
  let result ← w.ensuring fun a => a.dismiss Topic.all k
  Work.get fun a => pure (result, a.heardBy k)

/-- Selects rules and runs them. -/
def selectAndRun (r : RunRequest) : Work Analyzer (Workspace × RunResults) := do
  let w ← Work.now (Analyzer.createWorkspace r.workspace)
  let selection ← Analyzer.select r.selectors (some w)
  let results ← Analyzer.run selection w r.startPoints
  pure (w, results)

/-- Waits for the lock of runs and holds it during work. -/
def withRunLock {α : Type} (w : Work Service α) : Work Service α := do
  Work.acquire (fun s => !s.running) fun s => { s with running := true }
  w.ensuring fun s => { s with running := false }

/-- Appends an entry to the audit trail. A write that the system refuses is no failure. -/
def record (timestamp : String) (e : AuditEntry) : Effect Service Unit := fun s =>
  match s.trail.write s.analyzer.host timestamp e with
  | .ok (host, _) => (.ok (), { s with analyzer := { s.analyzer with host } })
  | .error f => (.error f, s)

/-- Runs the rules that are asked for, and records the run. -/
def run (t : Timing) (r : RunRequest) : Work Service RunReport := do
  let ((w, results), events) ← withRunLock (analyzing (listening (selectAndRun r)))
  let audit := AuditEntry.ofResults w.id results t.elapsed
  Work.now (record t.timestamp audit)
  pure { workspace := w, results, events, audit }

end Service

end Polyscan
