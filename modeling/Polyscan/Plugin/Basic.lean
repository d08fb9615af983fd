import Polyscan.Plugin.Engine

/-! Plugins: they list the engines that they can make, and make them. -/
namespace Polyscan

structure Plugin where
  /-- The version of the interface that the plugin was written for. -/
  apiVersion : Int := 1
  names : Except Fault (List String)
  make : String → EngineConfig → Delayed Engine

namespace Plugin

/-- The failure to make an engine of a name that a plugin does not know. -/
def unsupported (name : String) : Fault := .raised .value ("Unsupported engine name: " ++ name)

/-- The bundled plugin, which makes the built-in engine. -/
def bundled : Plugin where
  names := .ok [Engine.patternsName]
  make name config :=
    { outcome :=
        if name = Engine.patternsName then Engine.patterns <$> PatternRule.build config
        else .error (unsupported name) }

/-- The rounds after which all engines of a plugin are made. -/
def roundLimit (p : Plugin) (config : Config) : Nat :=
  match p.names with
  | .ok names => (names.map fun name => (p.make name (config.engine name)).rounds).foldl max 0
  | .error _ => 0

end Plugin

end Polyscan
