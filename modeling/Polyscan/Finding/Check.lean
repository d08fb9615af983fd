import Polyscan.Finding
import Polyscan.Host.Basic
import Polyscan.Json.Display
import Polyscan.Selection

/-!
Checks of findings. The first failing check of the first bad finding is reported. The order is the rule, the
primary index, and then for each location the file, start line, start column, end line and end column.
-/
namespace Polyscan

/-- Values that may turn out to be whole numbers. -/
class Coordinate (ι : Type) where
  whole? : ι → Option Int
  text : ι → Except Fault String

instance : Coordinate Int where
  whole? := some
  text := numeral

/-- Only whole numbers count; truth values and integral doubles do not. -/
instance : Coordinate Json where
  whole?
    | .int n => some n
    | _ => none
  text
    | .int n => numeral n
    | v => .ok v.display

variable {ι : Type} [Coordinate ι]

namespace Coordinate

def isPositive (x : ι) : Bool := (whole? x).any fun n => 1 ≤ n

/-- Both are whole numbers and the first is the smaller. -/
def isBefore (x y : ι) : Bool :=
  match whole? x, whole? y with
  | some m, some n => m < n
  | _, _ => false

def isEqual (x y : ι) : Bool :=
  match whole? x, whole? y with
  | some m, some n => m == n
  | _, _ => false

end Coordinate

/-- Which rule of which engine a finding is for. -/
structure Reporter where
  engine : String
  rule : String

/-- The failure for a problem. A problem whose text cannot be formatted fails with that failure instead. -/
def Fault.ofProblem : Except Fault Diagnostic → Fault
  | .ok problem => .contract problem
  | .error f => f

namespace Location

open Coordinate

def fileProblem? (h : Host) (r : Reporter) (l : Location ι) : Option Fault :=
  match h.resolve l.file with
  | .error f => some f
  | .ok file =>
    if !h.exists? file then some (.contract (.locationMissing r.engine r.rule file))
    else if !h.isFile file then some (.contract (.locationFolder r.engine r.rule file))
    else none

def coordinateProblem? (r : Reporter) (field : String) (x : ι) : Option Fault :=
  if isPositive x then none
  else some (.ofProblem do pure (.coordinate r.engine r.rule field (← text x)))

def endLineProblem? (r : Reporter) (l : Location ι) : Option Fault :=
  l.endLine.bind fun endLine =>
    (coordinateProblem? r "end_line" endLine).or <|
      if isBefore endLine l.startLine then
        some (.ofProblem do
          pure (.endLineBeforeStart r.engine r.rule (← text endLine) (← text l.startLine)))
      else none

def endColumnProblem? (r : Reporter) (l : Location ι) : Option Fault :=
  l.endColumn.bind fun endColumn =>
    (coordinateProblem? r "end_column" endColumn).or <|
      if l.endLine.any (isEqual · l.startLine) && isBefore endColumn l.startColumn then
        some (.ofProblem do
          pure (.endColumnBeforeStart r.engine r.rule (← text endColumn) (← text l.startColumn)))
      else none

/-- The first problem of a location. -/
def problem? (h : Host) (r : Reporter) (l : Location ι) : Option Fault :=
  (l.fileProblem? h r).or <|
    (coordinateProblem? r "start_line" l.startLine).or <|
      (coordinateProblem? r "start_column" l.startColumn).or <|
        (l.endLineProblem? r).or (l.endColumnProblem? r)

end Location

namespace Finding

open Coordinate

def ruleProblem? (selection : Selection) (engine : String) (f : Finding ι) : Option Fault :=
  if (selection.find? engine f.rule).isSome then none
  else some (.contract (.unselectedRule engine f.rule))

def indexProblem? (engine : String) (f : Finding ι) : Option Fault :=
  let last : Int := f.locations.length - 1
  if (whole? f.primaryIndex).any fun n => 0 ≤ n && n ≤ last then none
  else some (.ofProblem do pure (.primaryIndex engine f.rule (← text f.primaryIndex) last))

/-- The first problem of a finding. -/
def problem? (h : Host) (selection : Selection) (engine : String) (f : Finding ι) : Option Fault :=
  (f.ruleProblem? selection engine).or <|
    (f.indexProblem? engine).or <|
      f.locations.findSome? (Location.problem? h ⟨engine, f.rule⟩)

/-- Refuses a batch of findings because of its first problem. -/
def checkAll (h : Host) (selection : Selection) (engine : String) (fs : List (Finding ι)) :
    Except Fault Unit :=
  match fs.findSome? (problem? h selection engine) with
  | some f => .error f
  | none => .ok ()

end Finding

end Polyscan
