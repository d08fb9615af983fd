import Polyscan.Analyzer.Registry
import Polyscan.Json.Display

/-!
The rule catalogue: the rules that the engines describe, with the overrides of the configuration. All engines
are asked concurrently, and the rules are listed in the order of the engines.
-/
namespace Polyscan

/-- The elements of a value that can be iterated: the items of a list, the characters of a string, the keys of
an object. -/
def Json.elements (v : Json) : Except Fault (List Json) :=
  match v with
  | arr items => .ok items
  | str s => .ok (s.toList.map fun c => .str (String.singleton c))
  | obj fields => .ok (fields.map fun f => .str f.1)
  | _ => .error (.raised .type ("'" ++ v.kindName ++ "' object is not iterable"))

namespace Analyzer

/-- Asks an engine for its rule descriptions. -/
def askForDescriptions (w : Workspace) (engine : String) : Work Analyzer Described :=
  (Work.now (slot engine)).bind fun slot =>
    match slot.engine with
    | .patterns rules => pure (.descriptions (rules.map PatternRule.toDescription))
    | .external e =>
      (Work.now do
        modify (adjustSlot engine fun slot => { slot with describes := slot.describes ++ [w.id] })).bind
      fun _ => (e.describe w).await.bind fun v => pure (.data v)

/-- The validated descriptions of a list of values, up to the first invalid one. -/
def descriptionsIn (engine : String) : List Json → Except Fault (List RuleDescription)
  | [] => .ok []
  | v :: rest =>
    match (Schema.ruleDescription v).orFault "RuleDescription" with
    | .error f => .error (.contract (.malformedDescriptions engine f.text))
    | .ok d => do pure (d :: (← descriptionsIn engine rest))

/-- The validated descriptions of an answer. -/
def checkDescribed (engine : String) : Described → Except Fault (List RuleDescription)
  | .descriptions list => .ok list
  | .data v => do descriptionsIn engine (← v.elements)

/-- The first name that occurs twice. -/
def repeatedName? (seen : List String) : List RuleDescription → Option String
  | [] => none
  | d :: rest => if d.name ∈ seen then some d.name else repeatedName? (d.name :: seen) rest

/-- Logs the overrides of a rule. -/
def sayOverride (engine : String) (d : RuleDescription) (o : RuleOverride) : Effect Analyzer Unit := do
  if let some s := o.severity then
    say .debug (.overridden "severity" d.name engine d.severity.name s.name)
  if let some tags := o.tags then
    say .debug (.overridden "tags" d.name engine (Json.renderStrings d.tags) (Json.renderStrings tags))

/-- The rules of an engine, with the overrides of the configuration. -/
def rulesOf (engine : String) : List RuleDescription → Effect Analyzer (List Rule)
  | [] => pure []
  | d :: rest => do
    let o := (← get).config.override engine d.name
    sayOverride engine d o
    let more ← rulesOf engine rest
    pure (⟨engine, d.overriddenBy o⟩ :: more)

/-- The rules of an engine from its answer. -/
def acceptDescribed (engine : String) (described : Described) : Effect Analyzer (List Rule) :=
  match checkDescribed engine described with
  | .error f => throw f
  | .ok descriptions =>
    match repeatedName? [] descriptions with
    | some rule => throw (.contract (.repeatedRule engine rule))
    | none => rulesOf engine descriptions

/-- The rules of one engine. -/
def describeEngine (w : Workspace) (engine : String) : Work Analyzer (List Rule) :=
  (askForDescriptions w engine).bind fun d => Work.now (acceptDescribed engine d)

/-- A number of rounds after which all engines have answered. -/
def roundLimit (a : Analyzer) (w : Workspace) : Nat :=
  (a.slots.values.map fun slot =>
    match slot.engine with
    | .patterns _ => 0
    | .external e => (e.describe w).rounds).foldl max 0

/-- The rules of all engines. -/
def rulesIn (w : Workspace) : Work Analyzer (List Rule) :=
  .get fun a =>
    (Work.gather (a.roundLimit w + 1) (a.engineNames.map (describeEngine w))).bind fun perEngine =>
      pure perEngine.flatten

/-- The given workspace, or the one of the working directory. -/
def workspaceOr (w : Option Workspace) : Work Analyzer Workspace :=
  match w with
  | some w => pure w
  | none => Work.now workspaceHere

/-- The rules of all engines, in a workspace or in that of the working directory. -/
def allRules (w : Option Workspace) : Work Analyzer (List Rule) := (workspaceOr w).bind rulesIn

/-- Selects rules of all engines. -/
def select (selectors : List String) (w : Option Workspace) : Work Analyzer Selection :=
  (allRules w).bind fun rules => pure (Selection.select rules selectors)

end Analyzer

end Polyscan
