import Polyscan.Config
import Polyscan.Json.Reader
import Polyscan.Plugin.Module
import Polyscan.Settings.Dotenv
import Polyscan.Text.Case
import Polyscan.Text.Line

/-!
Settings of the service. They come from the environment and from a file of settings, over which the
environment wins; names are taken without regard to case, and structured values are given as data.
-/
namespace Polyscan

structure Settings where
  logLevel : String := "INFO"
  plugins : List String := [PluginModule.bundledName]
  config : Config := {}
  auditPath : String := "audit.jsonl"
  origins : List String := ["*"]
  deriving Inhabited

namespace Settings

/-- The settings by name; those that hold structured values are marked. -/
def names : List (String × Bool) :=
  [("log_level", false), ("engine_plugins", true), ("analyzer_config", true),
    ("audit_log_path", false), ("cors_origins", true)]

/-- Where values come from, with the name under which it is blamed. -/
inductive Source where
  | environment
  | file
  deriving DecidableEq, Repr

def Source.name : Source → String
  | environment => "EnvSettingsSource"
  | file => "DotEnvSettingsSource"

/-- Variables by name in lower case; of equal names the last one counts. -/
def byLowerName (vars : List (String × Option String)) : List (String × Option String) :=
  vars.foldl (fun m v => OrderedMap.put (Text.lower v.1) v.2 m) []

/-- Brings the names of a configuration's parts into lower case. -/
def renameParts : List (String × Json) → List (String × Json) → List (String × Json)
  | [], done => done
  | (k, v) :: rest, done =>
    let low := Text.lower k
    let k := if low = "engines" ∨ low = "rules" then low else k
    renameParts rest (OrderedMap.put k v done)

/-- The value of a setting, if it is set; an unreadable one is blamed on its source. -/
def valueOf (source : Source) (vars : List (String × Option String)) (name : String)
    (structured : Bool) : Except Fault (Option Json) :=
  match (OrderedMap.find name vars).getD none with
  | none => .ok none
  | some text =>
    if !structured then .ok (some (.str text))
    else
      match Json.read text.toList with
      | .error _ =>
        .error (.raised .settings
          ("error parsing value for field \"" ++ name ++ "\" from source \"" ++ source.name ++ "\""))
      | .ok .null => .ok none
      | .ok (.obj fields) =>
        .ok (some (.obj (if name = "analyzer_config" then renameParts fields [] else fields)))
      | .ok v => .ok (some v)

/-- The values of all settings that a source sets. -/
def valuesOf (source : Source) (vars : List (String × Option String)) :
    List (String × Bool) → Except Fault (List (String × Json))
  | [] => .ok []
  | (name, structured) :: rest => do
    let v ← valueOf source vars name structured
    let more ← valuesOf source vars rest
    pure (match v with
      | some v => (name, v) :: more
      | none => more)

/-- Whether a variable is, or begins with the name of, a setting of the kind that may do so. -/
def isUsed (given : String) : Bool :=
  names.any fun (name, structured) => given = name || (structured && Text.startsWith given name)

/-- Variables of a file that belong to no setting. -/
def extras (vars : List (String × Option String)) : List (String × Json) :=
  vars.filterMap fun (name, v) =>
    match v with
    | some text => if text.isEmpty || isUsed name then none else some (name, .str text)
    | none => none

mutual

/-- Lays one value over another: objects are merged, anything else replaces. -/
def merge : Json → Json → Json
  | .obj above, .obj below => .obj (mergeFields above below)
  | v, _ => v

def mergeFields : List (String × Json) → List (String × Json) → List (String × Json)
  | [], below => below
  | (k, v) :: rest, below =>
    let v' :=
      match OrderedMap.find k below with
      | some w => merge v w
      | none => v
    mergeFields rest (OrderedMap.put k v' below)

end

/-- Fields that no setting asks for. -/
def unexpected (fields : List (String × Json)) : Schema.Checked Unit :=
  match fields.filter fun f => !names.any fun n => n.1 = f.1 with
  | [] => .good ()
  | extra => .bad (extra.map fun f => ⟨[.field f.1], .unexpected⟩)

/-- The settings as they are where nothing is said. -/
def usual : Settings := {}

def schema (fields : List (String × Json)) : Schema.Checked Settings :=
  (fun logLevel plugins config auditPath origins (_ : Unit) =>
      { logLevel, plugins, config, auditPath, origins }) <$>
    Schema.withDefault fields "log_level" usual.logLevel Schema.string
    <*> Schema.withDefault fields "engine_plugins" usual.plugins Schema.strings
    <*> Schema.withDefault fields "analyzer_config" usual.config Schema.config
    <*> Schema.withDefault fields "audit_log_path" usual.auditPath Schema.string
    <*> Schema.withDefault fields "cors_origins" usual.origins Schema.strings
    <*> unexpected fields

/-- The settings that an environment and a file of settings make. -/
def load (env : List (String × String)) (file : Option String) : Except Fault Settings := do
  let above ← valuesOf .environment (byLowerName (env.map fun v => (v.1, some v.2))) names
  let below ←
    match file with
    | none => pure []
    | some text => do
      let vars := byLowerName (Dotenv.read env (Text.uniformNewlines text.toList))
      let set ← valuesOf .file vars names
      pure (set ++ extras vars)
  (schema (mergeFields above below)).orFault "Settings"

def toJson (s : Settings) : Json :=
  .obj [("log_level", .str s.logLevel), ("engine_plugins", .strings s.plugins),
    ("analyzer_config", s.config.toJson), ("audit_log_path", .str s.auditPath),
    ("cors_origins", .strings s.origins)]

end Settings

end Polyscan
