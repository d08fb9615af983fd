import Polyscan.Finding
import Polyscan.Selection

/-! Results of a run: for each engine its accepted violations or its failure. -/
namespace Polyscan

/-- An accepted finding together with its rule. -/
structure Violation where
  rule : Rule
  message : String
  locations : List (Location Int)
  primaryIndex : Int
  resourceUrls : List String
  deriving DecidableEq, Repr, Inhabited

namespace Violation

/-- The violation of a finding. The resource URLs of the finding, if it has any, replace those of the rule. -/
def ofFinding (rule : Rule) (f : Finding Int) : Violation where
  rule := rule
  message := f.message
  locations := f.locations
  primaryIndex := f.primaryIndex
  resourceUrls := if f.resourceUrls.isEmpty then rule.resourceUrls else f.resourceUrls

def severity (v : Violation) : Severity := v.rule.severity

/-- Indices below `-subscriptLimit` or from `subscriptLimit` on fail with a text of their own. -/
def subscriptLimit : Nat := Nat.pow 2 63

/-- The location that stands for the violation; a negative index counts from the end. -/
def primary (v : Violation) : Except Fault (Location Int) :=
  let i := if v.primaryIndex < 0 then v.primaryIndex + v.locations.length else v.primaryIndex
  match if 0 ≤ i then v.locations[i.toNat]? else none with
  | some l => .ok l
  | none =>
    if v.primaryIndex < -subscriptLimit ∨ subscriptLimit ≤ v.primaryIndex then
      .error (.raised .index "cannot fit 'int' into an index-sized integer")
    else .error (.raised .index "list index out of range")

end Violation

/-- The results of one engine. -/
structure EngineResults where
  engine : String
  outcome : Except Fault (List Violation)

namespace EngineResults

/-- The violations of findings, with their rules from the selection. -/
def ofFindings (selection : Selection) (engine : String) (fs : List (Finding Int)) :
    Except Fault EngineResults := do
  let violations ← fs.mapM fun f => do pure (Violation.ofFinding (← selection.rule engine f.rule) f)
  pure { engine, outcome := .ok violations }

def failure (engine : String) (fault : Fault) : EngineResults := { engine, outcome := .error fault }

def violations (r : EngineResults) : List Violation := r.outcome.toOption.getD []

def isFailure (r : EngineResults) : Bool := !r.outcome.isOk

def count (r : EngineResults) : Nat := r.violations.length

def countOf (r : EngineResults) (severity : Severity) : Nat :=
  (r.violations.filter fun v => v.severity = severity).length

end EngineResults

/-- Results by engine, in the order of the first additions. A later addition for an engine replaces the
earlier one. -/
structure RunResults where
  byEngine : OrderedMap String EngineResults

namespace RunResults

def empty : RunResults := ⟨.empty⟩

def add (r : RunResults) (e : EngineResults) : RunResults := ⟨r.byEngine.insert e.engine e⟩

def ofList (l : List EngineResults) : RunResults := l.foldl add empty

def engineNames (r : RunResults) : List String := r.byEngine.keys

def toList (r : RunResults) : List EngineResults := r.byEngine.values

def violations (r : RunResults) : List Violation := r.toList.flatMap EngineResults.violations

def count (r : RunResults) : Nat := (r.toList.map EngineResults.count).foldl (· + ·) 0

def countOf (r : RunResults) (severity : Severity) : Nat :=
  (r.toList.map fun e => e.countOf severity).foldl (· + ·) 0

def failedEngines (r : RunResults) : List String :=
  (r.byEngine.entries.filter fun e => e.2.isFailure).map Prod.fst

end RunResults

end Polyscan
