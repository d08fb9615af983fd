import Polyscan.Service.Http
import Polyscan.Work.Task

/-!
Concurrent requests. Each request is handled by a task, which starts a task for each engine when rules are
selected. All tasks share the service, and between two turns of one of them any others may have theirs.
-/
namespace Polyscan

namespace Http

open Analyzer Service

/-! ## The end of handlers -/

/-- The report of a run with its results and the events of its listener; its audit entry is written. -/
def recording (t : Timing) (x : (Workspace × RunResults) × List (Published LogLevel)) :
    Work Service RunReport :=
  let audit := AuditEntry.ofResults x.1.1.id x.1.2 t.elapsed
  (Work.now (record t.timestamp audit)).bind fun _ =>
    pure { workspace := x.1.1, results := x.1.2, events := x.2, audit }

/-- The response for the result of work, or for its failure. -/
def replying {β : Type} (encode : β → Json) (w : Work Service β) : Work Service Response :=
  (w.attempt.bind fun x => pure (answerOf encode x)).bind fun answer => pure answer.writable

/-- The response to a request for a run. -/
def answering (t : Timing) (w : Work Service ((Workspace × RunResults) × List (Published LogLevel))) :
    Work Service Response :=
  replying RunReport.toJson (w.bind (recording t))

/-- The rest of a request for a run from the result of its selection on: the run, the end of the listener `k`,
the release of the lock, and the response. -/
def concluding (t : Timing) (k : Nat) (w : Work Analyzer (Workspace × RunResults)) : Work Service Response :=
  answering t (Work.ensuring (fun s : Service => { s with running := false }) (analyzing
    ((w.ensuring fun a => a.dismiss Topic.all k).bind fun result =>
      .get fun a => pure (result, a.heardBy k))))

/-! ## Handlers as tasks -/

/-- A handler up to where it asks all engines for their rules. -/
abbrev Handler := Work Service (Work.Branch Service (List Rule) Response)

/-- Starts a task for each engine, in which the engine describes its rules. -/
def describing (w : Workspace) (next : Except Fault (List (List Rule)) → Work Service Response) : Handler :=
  .get fun s => pure (.fork (s.analyzer.roundLimit w + 1)
    (s.analyzer.engineNames.map fun engine => analyzing (describeEngine w engine)) next)

/-- Selects from the rules of all engines. -/
def selectListed (selectors : List String) (listed : Except Fault (List (List Rule))) : Except Fault Selection :=
  listed.map fun perEngine => Selection.select perEngine.flatten selectors

/-- The handler of a request for rules. -/
def rulesHandler (q : RulesRequest) : Handler :=
  (analyzing (Work.now (meant q.workspace))).attempt.bind fun
    | .error f => pure (.stop (answerOf Selection.toJson (.error f)).writable)
    | .ok w => describing w fun listed =>
      pure (answerOf Selection.toJson (selectListed q.selectors listed)).writable

/-- Runs what is selected from the rules of all engines. -/
def runListed (q : RunRequest) (w : Workspace) (listed : Except Fault (List (List Rule))) :
    Work Analyzer (Workspace × RunResults) :=
  match selectListed q.selectors listed with
  | .error f => throw f
  | .ok selection => (Analyzer.run selection w q.startPoints).bind fun results => pure (w, results)

/-- The handler of a request for a run once it holds the lock: it subscribes its listener and makes a
workspace. -/
def runEntered (t : Timing) (q : RunRequest) : Handler :=
  (analyzing attend).bind fun k =>
    (analyzing (Work.now (createWorkspace q.workspace))).attempt.bind fun
      | .error f => (concluding t k (throw f)).bind fun answer => pure (.stop answer)
      | .ok w => describing w fun listed => concluding t k (runListed q w listed)

/-- The handler of a request for a run: it waits for the lock. -/
def runHandler (t : Timing) (q : RunRequest) : Handler :=
  (Work.acquire (fun s => !s.running) fun s => { s with running := true }).bind fun _ => runEntered t q

/-- A request that is handled by tasks, with its parsed body. -/
inductive TaskRequest where
  | rules (q : RulesRequest)
  | run (q : RunRequest)

def Request.taskRequest? (r : Request) : Option TaskRequest :=
  match Route.ofPath? r.path with
  | some .rules =>
    if r.method = Route.rules.method then (parseBody Schema.rulesFields r).toOption.map .rules else none
  | some .run => if r.method = Route.run.method then (parseBody Schema.runFields r).toOption.map .run else none
  | _ => none

/-- The handler of a request. Any other request is answered at once. -/
def handler (t : Timing) (r : Request) : Handler :=
  match r.taskRequest? with
  | some (.rules q) => rulesHandler q
  | some (.run q) => runHandler t q
  | none => (serve t r).bind fun answer => pure (.stop answer)

end Http

/-! ## Turns of tasks -/

/-- A turn of the task for a request, or of one of its pieces. -/
structure Turn where
  request : Nat
  part : Work.Part
  deriving DecidableEq, Repr

/-- The tasks of all requests, and for each reading of the clock since the beginning the turn in which it was
taken. -/
structure EventLoop where
  service : Service
  tasks : List (Work.Task Service (List Rule) Http.Response)
  owners : List Turn := []

namespace EventLoop

/-- Requests whose tasks have not had a turn. -/
def start (requests : List (Timing × Http.Request)) (s : Service) : EventLoop :=
  { service := s, tasks := requests.map fun v => .start (Http.handler v.1 v.2) }

/-- Gives a task its turn. -/
def turn (f : EventLoop) (u : Turn) : EventLoop :=
  match f.tasks[u.request]? with
  | none => f
  | some x =>
    { service := (x.turn f.service u.part).2
      tasks := f.tasks.set u.request (x.turn f.service u.part).1
      owners := f.owners ++
        List.replicate ((x.turn f.service u.part).2.analyzer.clock - f.service.analyzer.clock) u }

def play (f : EventLoop) (schedule : List Turn) : EventLoop := schedule.foldl turn f

/-- The response to a request, once it is there. -/
def answer? (f : EventLoop) (i : Nat) : Option Http.Response :=
  (f.tasks[i]?.bind Work.Task.result?).bind Except.toOption

/-- The readings of the clock, from the first on, that were taken in turns for a request. -/
def readings (f : EventLoop) (first i : Nat) : List Nat :=
  ((f.owners.zipIdx first).filter fun x => x.1.request = i).map Prod.snd

end EventLoop

end Polyscan
