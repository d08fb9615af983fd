import Polyscan.Rule.Description

/-!
What engines report: findings with places in files. Lines, columns and indices are of a type `ι`; it is
`Int` once the report has been read, and may be any value before.
-/
namespace Polyscan

/-- A stretch of a file, with lines and columns counted from one. -/
structure Location (ι : Type) where
  file : String
  startLine : ι
  startColumn : ι
  endLine : Option ι := none
  endColumn : Option ι := none
  deriving DecidableEq, Repr, Inhabited

/-- One match of a rule, with the location that stands for it. -/
structure Finding (ι : Type) where
  rule : String
  message : String
  locations : List (Location ι)
  primaryIndex : ι
  resourceUrls : List String
  deriving DecidableEq, Repr, Inhabited

namespace Schema

def location : Json → Checked (Location Int) :=
  object "CodeLocation" fun fields =>
    Location.mk <$> required fields "file" string
      <*> required fields "start_line" wholeNumber
      <*> required fields "start_column" wholeNumber
      <*> withDefault fields "end_line" none (nullable wholeNumber)
      <*> withDefault fields "end_column" none (nullable wholeNumber)

def finding : Json → Checked (Finding Int) :=
  object "Violation" fun fields =>
    Finding.mk <$> required fields "rule_name" string
      <*> required fields "message" string
      <*> withDefault fields "code_locations" [] (list location)
      <*> withDefault fields "primary_location_index" 0 wholeNumber
      <*> withDefault fields "resource_urls" [] strings

/-- The findings of one run of an engine. -/
def findings : Json → Checked (List (Finding Int)) :=
  object "EngineRunResults" fun fields => withDefault fields "violations" [] (list finding)

end Schema

def Location.toJson (l : Location Int) : Json :=
  .obj [("file", .str l.file), ("start_line", .int l.startLine), ("start_column", .int l.startColumn),
    ("end_line", .optional .int l.endLine), ("end_column", .optional .int l.endColumn)]

def Finding.toJson (f : Finding Int) : Json :=
  .obj [("rule_name", .str f.rule), ("message", .str f.message),
    ("code_locations", .arr (f.locations.map Location.toJson)),
    ("primary_location_index", .int f.primaryIndex), ("resource_urls", .strings f.resourceUrls)]

def findingsToJson (fs : List (Finding Int)) : Json :=
  .obj [("violations", .arr (fs.map Finding.toJson))]

end Polyscan
