import Polyscan.Host.Basic
import Polyscan.Json.Display
import Polyscan.Json.Reader
import Polyscan.Results
import Polyscan.Text.CodePoint
import Polyscan.Text.Line

/-!
The audit trail: one JSON object for every finished run, each on a line of its own, at the end of a text file.
`read` passes over blank lines and over lines that are not JSON.
-/
namespace Polyscan

/-- The entry of a run, with texts of type `τ`. -/
structure AuditEntry (τ : Type := String) where
  runId : τ
  engines : List τ
  violations : Int
  byEngine : OrderedMap τ Int
  failed : List τ
  duration : Double
  deriving DecidableEq, Repr, Inhabited

namespace AuditEntry

/-- The entry of a run that took `duration` milliseconds. The duration is rounded to two places. -/
def ofResults (runId : String) (results : RunResults) (duration : Double) : AuditEntry where
  runId := runId
  engines := results.engineNames
  violations := results.count
  byEngine := results.byEngine.mapValues fun r => (r.count : Int)
  failed := results.failedEngines
  duration := duration.roundTo 2

variable {τ : Type} [IsText τ]

def fields (e : AuditEntry τ) : List (τ × Json τ) :=
  [(IsText.ofString "run_id", .str e.runId), (IsText.ofString "engines", .strings e.engines),
    (IsText.ofString "violations_found", .int e.violations),
    (IsText.ofString "violations_per_engine", .obj (e.byEngine.mapValues .int).entries),
    (IsText.ofString "failed_engines", .strings e.failed),
    (IsText.ofString "duration_ms", .real e.duration)]

def toJson (e : AuditEntry τ) : Json τ := .obj e.fields

/-- The JSON object of an entry, with the time of writing. -/
def record (e : AuditEntry τ) (timestamp : String) : Json τ :=
  .obj ((IsText.ofString "timestamp", .str (IsText.ofString timestamp)) :: e.fields)

/-- The line of an entry. An integer with more than `digitLimit` digits has no notation, and then there is no
line. -/
def line (e : AuditEntry τ) (timestamp : String) : Except Fault String := do
  let _ ← (e.violations :: e.byEngine.values).mapM numeral
  pure ((e.record timestamp).render ++ "\n")

end AuditEntry

/-- A trail at a path. -/
structure AuditTrail where
  path : String
  deriving DecidableEq, Repr, Inhabited

namespace AuditTrail

variable {τ : Type} [IsText τ]

def ofPath (path : String) : AuditTrail := ⟨Path.tidy path⟩

/-- The kinds of fault that the system raises when it does not open a file. -/
def isRefusal (f : Fault) : Bool :=
  match f.kind with
  | .fileNotFound | .notADirectory | .isADirectory | .system => true
  | _ => false

/-- Appends the line of an entry. If the system does not open the file, the call returns with a warning in the
log and the host is unchanged. -/
def write (t : AuditTrail) (h : Host) (timestamp : String) (e : AuditEntry τ) :
    Except Fault (Host × Option String) := do
  let line ← e.line timestamp
  match h.append t.path (Text.encode line) with
  | .ok h' => pure (h', none)
  | .error f =>
    if isRefusal f then
      pure (h, some ("Failed to write audit log " ++ t.path ++ ": " ++ f.text))
    else throw f

variable [DecidableEq τ]

/-- The value on a line: none if the line is blank, not JSON, or null. -/
def record? (line : String) : Except Fault (Option (Json τ)) :=
  if (Text.trim line).isEmpty then .ok none
  else
    match Json.read line.toList with
    | .ok .null => .ok none
    | .ok v => .ok (some v)
    | .error ⟨.tooManyDigits n, _⟩ =>
      .error (.raised .value (overlongText (some n)))
    | .error _ => .ok none

/-- The values on the lines of a text. -/
def records (text : List Char) : Except Fault (List (Json τ)) := do
  let found ← (Text.lines (String.ofList (Text.uniformNewlines text))).mapM record?
  pure (found.filterMap id)

/-- Whether a record has the run id. A value that is not an object has no fields and raises. -/
def isOfRun (runId : τ) (r : Json τ) : Except Fault Bool :=
  match r with
  | .obj fields =>
    match OrderedMap.find (IsText.ofString "run_id") fields with
    | some (.str s) => .ok (s = runId)
    | _ => .ok false
  | _ => .error (.raised .attribute ("'" ++ r.kindName ++ "' object has no attribute 'get'"))

/-- The records with the run id. -/
def ofRun (runId : τ) : List (Json τ) → Except Fault (List (Json τ))
  | [] => .ok []
  | r :: rest => do
    let keep ← isOfRun runId r
    let more ← ofRun runId rest
    pure (if keep then r :: more else more)

/-- The slice from `-count` on: the last `count` elements for a positive count, and for any other the list
without its first `-count` elements. -/
def recent {α : Type} (count : Int) (l : List α) : List α :=
  if 0 < count then l.drop (l.length - count.toNat) else l.drop (-count).toNat

/-- The last records of a trail, or the last with the run id. A missing file has none. -/
def read (t : AuditTrail) (h : Host) (count : Int) (runId : Option τ) : Except Fault (List (Json τ)) :=
  match h.readText t.path with
  | .error f => if f.kind = .fileNotFound then .ok [] else .error f
  | .ok text => do
    let all ← records text
    match runId with
    | none => pure (recent count all)
    | some id => do pure (recent count (← ofRun id all))

end AuditTrail

end Polyscan
