import Polyscan.Schema.Number
import Polyscan.Severity

/-! Rules as engines describe them. -/
namespace Polyscan

inductive RuleType where
  | standard
  | pathBased
  | unexpectedError
  deriving DecidableEq, Repr, Inhabited

namespace RuleType

def name : RuleType → String
  | standard => "Standard"
  | pathBased => "PathBased"
  | unexpectedError => "UnexpectedError"

def all : List RuleType := [standard, pathBased, unexpectedError]

end RuleType

/-- What an engine says about one of its rules. -/
structure RuleDescription where
  name : String
  severity : Severity
  type : RuleType := .standard
  tags : List String := []
  description : String := ""
  resourceUrls : List String := []
  deriving DecidableEq, Repr, Inhabited

namespace Schema

/-- A severity by its number, which may be spelled as a string. -/
def severityNumber (v : Json) : Checked Severity := numbered "1, 2, 3, 4 or 5" Severity.ofNumber? v

/-- A severity in any of its spellings. -/
def severitySpelling (v : Json) : Checked Severity :=
  match Severity.parse v with
  | .ok level => .good level
  | .error problem => .complain (.rejected problem.text)

def ruleType (v : Json) : Checked RuleType := named (RuleType.all.map fun t => (t.name, t)) v

def strings (v : Json) : Checked (List String) := list string v

def ruleDescription : Json → Checked RuleDescription :=
  object "RuleDescription" fun fields =>
    RuleDescription.mk <$> required fields "name" string
      <*> required fields "severity_level" severityNumber
      <*> withDefault fields "type" .standard ruleType
      <*> withDefault fields "tags" [] strings
      <*> withDefault fields "description" "" string
      <*> withDefault fields "resource_urls" [] strings

end Schema

/-- The description as data, with all fields. -/
def RuleDescription.toJson (d : RuleDescription) : Json :=
  .obj [("name", .str d.name), ("severity_level", .nat d.severity.number), ("type", .str d.type.name),
    ("tags", .strings d.tags), ("description", .str d.description),
    ("resource_urls", .strings d.resourceUrls)]

end Polyscan
