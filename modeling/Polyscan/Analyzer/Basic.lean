import Polyscan.Bus.Basic
import Polyscan.Host.Basic
import Polyscan.Ids
import Polyscan.Plugin.Module
import Polyscan.Work.Once

/-!
The state of an analyzer: its host, its listeners and its registered engines. `emit` takes one reading of the
clock and calls the listeners of the topic in the order of their subscriptions, up to the first one that
raises.
-/
namespace Polyscan

/-- A registered engine: the settings it was made with, the number of subscriptions that forward its messages,
and the calls it has received. -/
structure Slot where
  engine : Engine
  config : EngineConfig
  logForwards : Nat := 0
  progressForwards : Nat := 0
  /-- The workspaces for which the engine was asked for descriptions. -/
  describes : List String := []
  /-- The rule names and options with which the engine was started. -/
  runs : List (List String × RunOptions) := []

structure Analyzer where
  host : Host
  config : Config := {}
  loader : Host → String → Except Fault Plugin := Plugin.load
  bus : Bus Nat := {}
  /-- The number of listeners so far, which is the number of the next one. -/
  listeners : Nat := 0
  /-- The fault that a listener raises on a published event, if it does. It can depend on the reading of the
  clock, so one of two equal events may raise. -/
  refusal : Nat → Published LogLevel → Option Fault := fun _ _ => none
  clock : Nat := 0
  /-- All deliveries in order, as pairs of listener and event. -/
  heard : List (Nat × Published LogLevel) := []
  slots : OrderedMap String Slot := .empty
  ids : IdCounter := {}
  /-- The number of workspaces so far, which is the key of the next one. -/
  workspaces : Nat := 0
  expansions : List (Nat × Once (List String)) := []
  defaultWorkspace : KeyedCache String Workspace := {}

namespace Analyzer

/-! ## Events -/

/-- Delivers an event to listeners one after another, up to the first that raises. -/
def deliverAll (p : Published LogLevel) : List Nat → Effect Analyzer Unit
  | [], a => (.ok (), a)
  | k :: rest, a =>
    let a := { a with heard := a.heard ++ [(k, p)] }
    match a.refusal k p with
    | some f => (.error f, a)
    | none => deliverAll p rest a

/-- Emits an event. -/
def emit (event : Event LogLevel) : Effect Analyzer Unit := fun a =>
  deliverAll ⟨a.clock, event⟩ (a.bus.audience event.topic) { a with clock := a.clock + 1 }

/-- Emits a log message of the analyzer itself. -/
def say (level : LogLevel) (d : Diagnostic) : Effect Analyzer Unit := emit (.log level d.text)

/-- Subscribes a new listener to topics. -/
def listen (a : Analyzer) (topics : List Topic) (refusal : Published LogLevel → Option Fault) :
    Nat × Analyzer :=
  let k := a.listeners
  (k, { a with
    listeners := k + 1
    bus := topics.foldl (fun b t => b.subscribe t k) a.bus
    refusal := fun i p => if i = k then refusal p else a.refusal i p })

/-- Cancels one subscription of a listener to each of the given topics. -/
def dismiss (a : Analyzer) (topics : List Topic) (listener : Nat) : Analyzer :=
  { a with bus := topics.foldl (fun b t => b.unsubscribe t listener) a.bus }

/-- The events that were delivered to a listener. -/
def heardBy (a : Analyzer) (listener : Nat) : List (Published LogLevel) :=
  (a.heard.filter fun e => e.1 = listener).map Prod.snd

/-! ## Engines -/

def engineNames (a : Analyzer) : List String := a.slots.keys

/-- The slot of an engine. -/
def slot (name : String) : Effect Analyzer Slot := fun a =>
  match a.slots.get? name with
  | some slot => (.ok slot, a)
  | none => (.error (.unknown name), a)

def adjustSlot (name : String) (f : Slot → Slot) (a : Analyzer) : Analyzer :=
  { a with slots := a.slots.adjust name f }

/-- Emits an event a number of times. -/
def emitTimes (event : Event LogLevel) : Nat → Effect Analyzer Unit
  | 0 => pure ()
  | n + 1 => do
    emit event
    emitTimes event n

/-- Forwards a message of an engine: it is emitted under the engine's name. -/
def forward (engine : String) (message : EngineMessage) : Effect Analyzer Unit := do
  let slot ← slot engine
  emitTimes (message.toEvent engine) <|
    match message with
    | .log .. => slot.logForwards
    | .progress _ => slot.progressForwards

/-- Forwards the messages of an engine up to the first fault among them. -/
def forwardAll (engine : String) : List (Except Fault EngineMessage) → Effect Analyzer Unit
  | [] => pure ()
  | .error f :: _ => throw f
  | .ok m :: rest => do
    forward engine m
    forwardAll engine rest

/-! ## Workspaces -/

/-- A new workspace with the given inputs, which are not checked. -/
def newWorkspace (id : String) (inputs : List String) : Effect Analyzer Workspace := fun a =>
  (.ok ⟨a.workspaces, id, inputs⟩, { a with workspaces := a.workspaces + 1 })

/-- A new workspace over files and folders, all of which must exist. An identifier is used up even if one does
not. -/
def createWorkspace (paths : List String) : Effect Analyzer Workspace := fun a =>
  let (id, ids) := a.ids.next "workspace"
  let a := { a with ids }
  match Workspace.absoluteInputs a.host [] paths with
  | .ok inputs => newWorkspace id inputs a
  | .error f => (.error f, a)

/-- The workspace of the working directory, kept as long as that stays the same. -/
def workspaceHere : Effect Analyzer Workspace := fun a =>
  let (r, cache, a) := a.defaultWorkspace.get (fun cwd => createWorkspace [cwd]) a.host.cwdPath a
  (r, { a with defaultWorkspace := cache })

/-- Where the files of a workspace are kept once they have been listed. -/
def expansion (key : Nat) : Once.Spot Analyzer (List String) where
  look a := (OrderedMap.find key a.expansions).getD {}
  store o a := { a with expansions := OrderedMap.put key o a.expansions }

/-- Lists the files of a workspace anew. -/
def listFiles (w : Workspace) : Work Analyzer (List String) :=
  (Work.pause 1).bind fun _ => Work.now fun a => (.ok (Workspace.expand a.host w.inputs), a)

/-- The files of a workspace, listed when they are first asked for. -/
def expandedFiles (w : Workspace) : Work Analyzer (List String) :=
  Once.obtain (expansion w.key) (listFiles w)

end Analyzer

end Polyscan
