import Polyscan.Rule.Basic

/-!
Selections: rules grouped by engine. Engines stand in the order of their first rule and rules in the
order of their first mention; a rule that is mentioned again keeps its place with its last description.
-/
namespace Polyscan

structure Selection where
  groups : OrderedMap String (OrderedMap String Rule)

namespace Selection

def empty : Selection := ⟨.empty⟩

def rulesByName (s : Selection) (engine : String) : OrderedMap String Rule :=
  (s.groups.get? engine).getD .empty

def insert (s : Selection) (r : Rule) : Selection :=
  ⟨s.groups.insert r.engine ((s.rulesByName r.engine).insert r.name r)⟩

def ofList (rules : List Rule) : Selection := rules.foldl insert empty

/-- All rules, engine by engine. -/
def toList (s : Selection) : List Rule := s.groups.values.flatMap OrderedMap.values

def count (s : Selection) : Nat := (s.groups.values.map OrderedMap.size).foldl (· + ·) 0

def engineNames (s : Selection) : List String := s.groups.keys

def rulesFor (s : Selection) (engine : String) : List Rule := (s.rulesByName engine).values

def find? (s : Selection) (engine rule : String) : Option Rule := (s.rulesByName engine).get? rule

/-- The rule of an engine under a name. -/
def rule (s : Selection) (engine name : String) : Except Fault Rule :=
  match s.find? engine name with
  | some r => .ok r
  | none => .error (.absent (.ruleNotSelected engine name))

/-- The tag that is selected when nothing else is asked for. -/
def defaultSelector : String := "Recommended"

/-- Keeps the rules that match at least one selector. -/
def select (rules : List Rule) (selectors : List String) : Selection :=
  let selectors := if selectors.isEmpty then [defaultSelector] else selectors
  ofList (rules.filter fun r => selectors.any r.matchesSelector)

/-- The selection held to one engine. -/
def only (s : Selection) (engine : String) : Selection := ofList (s.rulesFor engine)

end Selection

end Polyscan
