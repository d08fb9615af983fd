import Polyscan.Rule.Description

/-! The analyzer's configuration: settings of each engine, and replacements for properties of rules. -/
namespace Polyscan

/-- Replacements for properties of one rule. -/
structure RuleOverride where
  severity : Option Severity := none
  tags : Option (List String) := none
  deriving DecidableEq, Repr, Inhabited

/-- An engine's settings, which only the engine understands. -/
abbrev EngineConfig := List (String × Json)

structure Config where
  engines : List (String × EngineConfig) := []
  rules : List (String × List (String × RuleOverride)) := []
  deriving Inhabited

namespace Schema

def ruleOverride : Json → Checked RuleOverride :=
  object "RuleOverride" fun fields =>
    RuleOverride.mk <$> withDefault fields "severity" none (nullable severitySpelling)
      <*> withDefault fields "tags" none (nullable strings)

/-- The fields of an override, the severity through its reader. -/
def overrideFields (fields : List (String × Json)) : Except Fault (Checked RuleOverride) := do
  let severity ← guardedField fields "severity" none (guardedNullable Severity.read)
  pure (RuleOverride.mk <$> severity <*> withDefault fields "tags" none (nullable strings))

def config : Json → Checked Config :=
  object "CodeAnalyzerConfig" fun fields =>
    Config.mk <$> withDefault fields "engines" [] (table (table anything))
      <*> withDefault fields "rules" [] (table (table ruleOverride))

end Schema

namespace Config

/-- The settings of an engine; none if it is not mentioned. -/
def engine (c : Config) (name : String) : EngineConfig := (OrderedMap.find name c.engines).getD []

/-- The replacements for a rule of an engine; none if it is not mentioned. -/
def override (c : Config) (engine rule : String) : RuleOverride :=
  (OrderedMap.find rule ((OrderedMap.find engine c.rules).getD [])).getD {}

end Config

/-- The description with the given properties in place of its own. -/
def RuleDescription.overriddenBy (d : RuleDescription) (o : RuleOverride) : RuleDescription :=
  { d with severity := o.severity.getD d.severity, tags := o.tags.getD d.tags }

def RuleOverride.toJson (o : RuleOverride) : Json :=
  .obj [("severity", .optional (fun s => .nat s.number) o.severity), ("tags", .optional .strings o.tags)]

def Config.toJson (c : Config) : Json :=
  .obj [("engines", .obj (c.engines.map fun e => (e.1, .obj e.2))),
    ("rules", .obj (c.rules.map fun e => (e.1, .obj (e.2.map fun o => (o.1, o.2.toJson)))))]

end Polyscan
