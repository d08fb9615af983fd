import Polyscan.Host.Basic
import Polyscan.Plugin.Basic

/-!
Plugin modules: a reference with a slash or with the ending of a module file is the path of a file, any
other is a dotted name.
-/
namespace Polyscan

namespace PluginModule

/-- The plugin that a module makes, once it is loaded. -/
def toPlugin (reference : String) : PluginModule → Except Fault Plugin
  | bundled => .ok .bundled
  | withoutFactory => .error (.pluginLoad (.moduleWithoutFactory reference))
  | failsToLoad problem => .error (.pluginLoad (.moduleNotLoaded reference problem))
  | failsToMake problem => .error (.raised .runtime problem)

/-- The packages that belong to the program, each with its modules. -/
def packages : List (String × List String) := [
  ("codeanalyzer", ["api", "audit", "config", "core", "engines", "handler", "log", "main", "models"]),
  ("codeanalyzer.api", ["dependencies", "routes"]),
  ("codeanalyzer.api.routes", ["health", "rules", "run"]),
  ("codeanalyzer.audit", ["logger"]),
  ("codeanalyzer.core", ["analyzer", "engine_api", "engine_registry", "errors", "event_bus", "messages",
    "plugin_loader", "result_validator", "results", "rule_catalog", "rule_selector", "run_options",
    "utils", "workspace"]),
  ("codeanalyzer.engines", ["regex"]),
  ("codeanalyzer.engines.regex", ["executor", "plugin", "rules"]),
  ("codeanalyzer.models", ["api_models", "config_models", "engine_models", "event_models"])]

/-- The one module of the program that offers a plugin. -/
def bundledName : String := "codeanalyzer.engines.regex.plugin"

/-- Looks for the parts of a dotted name one inside the other; `package` is the name of those found.
Gives the text of the problem if one is missing. -/
def findParts (package : String) : List String → Except String Unit
  | [] => .ok ()
  | part :: rest =>
    let name := package ++ "." ++ part
    match OrderedMap.find package packages with
    | none =>
      .error ("No module named " ++ Text.quoted name ++ "; " ++ Text.quoted package ++ " is not a package")
    | some modules =>
      if part ∈ modules then findParts name rest else .error ("No module named " ++ Text.quoted name)

/-- The module of a dotted name, or the text of the problem. -/
def named (name : String) : Except String PluginModule :=
  if name.isEmpty then .error "Empty module name"
  else if Text.startsWith name "." then
    .error ("the 'package' argument is required to perform a relative import for " ++ Text.quoted name)
  else
    match Text.split '.' name with
    | [] => .error "Empty module name"
    | first :: rest => do
      if (OrderedMap.find first packages).isNone then throw ("No module named " ++ Text.quoted first)
      findParts first rest
      pure (if name = bundledName then .bundled else .withoutFactory)

/-- The ending of module files. -/
def ending : String := ".py"

/-- The module in a file, or the text of the problem. -/
def inFile (h : Host) (path : String) : Except String PluginModule :=
  match h.node? path with
  | some (.file content) =>
    if Text.endsWith path ending then
      .ok (match content with
        | .module kind => kind
        | .bytes _ => .withoutFactory)
    else .error ("Cannot create a module spec for " ++ path)
  | _ => .error ("No such file: " ++ path)

/-- The module that a reference stands for, or the text of the problem. -/
def find (h : Host) (reference : String) : Except String PluginModule :=
  if Text.endsWith reference ending || '/' ∈ reference.toList then
    match h.resolve reference with
    | .ok path => inFile h path
    | .error f => .error f.text
  else named reference

end PluginModule

/-- The plugin that a module reference stands for. -/
def Plugin.load (h : Host) (reference : String) : Except Fault Plugin :=
  match PluginModule.find h reference with
  | .ok m => m.toPlugin reference
  | .error problem => .error (.pluginLoad (.moduleNotLoaded reference problem))

end Polyscan
