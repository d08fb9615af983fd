import Polyscan.Analyzer.Basic
import Polyscan.Work.Gather

/-!
Registration of engines. Each name that a plugin lists is one attempt: the engine is made, which may take
rounds, and is registered unless it reports another name or its name was taken meanwhile. A problem with one
name is logged and leaves the other names alone.
-/
namespace Polyscan.Analyzer

def isRegistered (a : Analyzer) (name : String) : Bool := a.slots.contains name

/-- Begins an attempt; there is nothing to make if the name is taken. -/
def beginAttempt (p : Plugin) (name : String) : Effect Analyzer (Option (EngineConfig × Delayed Engine)) :=
  fun a =>
    if a.isRegistered name then
      (do say .error (.duplicateEngine name); pure none : Effect Analyzer _) a
    else
      let config := a.config.engine name
      (.ok (some (config, p.make name config)), a)

/-- Registers an engine: it is stored, `engineAdded` is emitted, and then its messages are forwarded. -/
def register (name : String) (config : EngineConfig) (engine : Engine) : Effect Analyzer Unit := do
  modify fun a => { a with slots := a.slots.insert name { engine, config } }
  say .debug (.engineAdded name)
  modify (adjustSlot name fun slot =>
    { slot with
      logForwards := slot.logForwards + 1
      progressForwards := slot.progressForwards + 1 })

/-- Ends an attempt with the engine that was made, or the fault of making it. -/
def endAttempt (name : String) (config : EngineConfig) (made : Except Fault Engine) :
    Effect Analyzer Unit :=
  match made with
  | .error f => say .error (.createEngine name f.text)
  | .ok engine =>
    match engine.reportedName with
    | .error f => throw f
    | .ok reported => fun a =>
      if reported ≠ name then say .error (.nameContradiction name reported) a
      else if a.isRegistered name then say .error (.duplicateEngine name) a
      else register name config engine a

/-- One attempt to add the engine of a name. -/
def addEngine (p : Plugin) (name : String) : Work Analyzer Unit :=
  (Work.now (beginAttempt p name)).bind fun
    | none => pure ()
    | some (config, making) =>
      making.await.attempt.bind fun made => Work.now (endAttempt name config made)

/-- The names that a plugin lists. A plugin for a newer interface is logged. -/
def openPlugin (p : Plugin) : Effect Analyzer (List String) :=
  match p.names with
  | .error f => throw (.plugin (.pluginNames f.text))
  | .ok names => do
    if supportedApi < p.apiVersion then say .warn (.futureApi p.apiVersion names)
    pure names

/-- Adds the engines of a plugin, making all of them at the same time. -/
def addPlugin (p : Plugin) : Work Analyzer Unit :=
  (Work.now (openPlugin p)).bind fun names =>
    .get fun a =>
      (Work.gather (p.roundLimit a.config + 1) (names.map (addEngine p))).bind fun _ => pure ()

/-- Adds several plugins at the same time. -/
def addPlugins (ps : List Plugin) : Work Analyzer (List (Except Fault Unit)) :=
  .get fun a =>
    Work.gatherAll ((ps.map fun p => p.roundLimit a.config).foldl max 0 + 3) (ps.map addPlugin)

/-- Adds the plugin of a module. -/
def addModule (reference : String) : Work Analyzer Unit :=
  .get fun a => (Work.done (a.loader a.host reference)).bind addPlugin

end Polyscan.Analyzer
