import Polyscan.Finding
import Polyscan.Host.Basic
import Polyscan.Pattern.Search
import Polyscan.PatternRule
import Polyscan.Text.Line

/-! Scanning files with pattern rules. -/
namespace Polyscan

/-- A text with the offsets at which its lines start. -/
structure Scanned where
  file : String
  subject : Pattern.Subject
  starts : Array Nat

namespace Scanned

def ofText (file : String) (text : List Char) : Scanned where
  file := file
  subject := (text.map Char.toNat).toArray
  starts := Text.lineStarts text

/-- The location between two offsets. -/
def location (s : Scanned) (first last : Nat) : Location Int :=
  let p := Text.position s.starts first
  let q := Text.position s.starts last
  { file := s.file, startLine := p.line, startColumn := p.column,
    endLine := some q.line, endColumn := some q.column }

end Scanned

namespace PatternRule

/-- The offsets of the reported group of a match. There are none if the group did not take part in the match. -/
def spanOf (r : PatternRule) (m : Pattern.Match) : Except Fault (Option (Nat × Nat)) :=
  if r.group < 0 ∨ (r.pattern.groups : Int) < r.group then .error (.raised .index "no such group")
  else .ok (m.span? r.group.toNat)

def finding (r : PatternRule) (s : Scanned) (first last : Nat) : Finding Int where
  rule := r.name
  message := r.message
  locations := [s.location first last]
  primaryIndex := 0
  resourceUrls := r.resourceUrls

/-- The finding of a match, unless the reported group is empty or did not take part. -/
def findingOf (r : PatternRule) (s : Scanned) (m : Pattern.Match) :
    Except Fault (Option (Finding Int)) := do
  match ← r.spanOf m with
  | some (first, last) => pure (if first = last then none else some (r.finding s first last))
  | none => pure none

/-- The findings of a rule in a text, in the order of the matches. -/
def findingsIn (r : PatternRule) (s : Scanned) : Except Fault (List (Finding Int)) := do
  let found ← (r.pattern.matchesIn s.subject).mapM (r.findingOf s)
  pure (found.filterMap id)

/-- The findings of several rules in a text, rule by rule. -/
def allFindingsIn (rules : List PatternRule) (s : Scanned) : Except Fault (List (Finding Int)) := do
  let found ← rules.mapM fun r => r.findingsIn s
  pure found.flatten

/-- The findings of the rules that apply to the file. A file that cannot be read or decoded has none. -/
def scanFile (h : Host) (rules : List PatternRule) (file : String) : Except Fault (List (Finding Int)) :=
  let applicable := rules.filter (·.appliesTo file)
  if applicable.isEmpty then .ok []
  else
    match h.readText file with
    | .ok text => allFindingsIn applicable (.ofText file (Text.uniformNewlines text))
    | .error fault =>
      match fault.kind with
      | .value => .error fault
      | _ => .ok []

end PatternRule

end Polyscan
