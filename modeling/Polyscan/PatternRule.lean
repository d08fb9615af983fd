import Polyscan.Config
import Polyscan.Pattern.Reader
import Polyscan.Text.Case

/-!
Rules whose violations are the matches of a regular expression: the built-in rule and the custom rules of an
engine's settings.
-/
namespace Polyscan

structure PatternRule where
  name : String
  pattern : Pattern
  description : String
  message : String
  extensions : List String
  severity : Severity := .moderate
  tags : List String := []
  resourceUrls : List String := []
  /-- The group whose place is reported; zero is the whole match. -/
  group : Int := 0
  deriving Repr, Inhabited

namespace PatternRule

def defaultExtensions : List String :=
  [".cls", ".trigger", ".js", ".cjs", ".mjs", ".jsx", ".ts", ".tsx", ".py", ".java", ".html", ".css",
    ".xml", ".md", ".txt"]

/-- File extensions are kept in lower case and start with a point. -/
def normalizeExtension (e : String) : String :=
  if Text.startsWith e "." then Text.lower e else "." ++ Text.lower e

/-- Whether the file name ends with one of the extensions of the rule, in any case. -/
def appliesTo (r : PatternRule) (file : String) : Bool :=
  let name := Text.lower file
  r.extensions.any (Text.endsWith name)

/-- `\S([ \t]+)$`: spaces and tabs at the end of a line, behind a character that is not white space. -/
def trailingPattern : Pattern where
  text := "\\S([ \\t]+)$"
  flags := Pattern.ruleFlags
  groups := 1
  tree := .ofList [.set false [.kind true .space],
    .group (some 1) {} {} (.ofList [.loop .greedy 1 none (.set false [.one 32, .one 9])]),
    .anchor .lineEnd]

def trailingWhitespace : PatternRule where
  name := "TrailingWhitespace"
  pattern := trailingPattern
  description := "Detects trailing spaces and tabs at the end of lines."
  message := "Found trailing whitespace at the end of a line of code."
  extensions := defaultExtensions
  severity := .low
  tags := ["Recommended", "CodeStyle"]
  group := 1

/-- The built-in rules. -/
def builtin : List PatternRule := [trailingWhitespace]

def toDescription (r : PatternRule) : RuleDescription where
  name := r.name
  severity := r.severity
  tags := r.tags
  description := r.description
  resourceUrls := r.resourceUrls

end PatternRule

/-- A custom rule as the settings declare it. -/
structure CustomRule where
  regex : String
  description : String
  message : Option String
  extensions : Option (List String)
  severity : Severity
  tags : List String
  deriving DecidableEq, Repr, Inhabited

namespace Schema

def customRule : Json → Checked CustomRule :=
  object "CustomRuleConfig" fun fields =>
    CustomRule.mk <$> required fields "regex" string
      <*> required fields "description" string
      <*> withDefault fields "violation_message" none (nullable string)
      <*> withDefault fields "file_extensions" none (nullable strings)
      <*> withDefault fields "severity" .moderate severitySpelling
      <*> withDefault fields "tags" ["Recommended"] strings

/-- The checks of a custom rule's fields. The severity is read by `Severity.parse`. -/
def customRuleFields (fields : List (String × Json)) : Except Fault (Checked CustomRule) := do
  let severity ← guardedField fields "severity" .moderate (guarded Severity.read)
  pure (CustomRule.mk <$> required fields "regex" string
    <*> required fields "description" string
    <*> withDefault fields "violation_message" none (nullable string)
    <*> withDefault fields "file_extensions" none (nullable strings)
    <*> severity
    <*> withDefault fields "tags" ["Recommended"] strings)

end Schema

namespace CustomRule

def toJson (c : CustomRule) : Json :=
  .obj [("regex", .str c.regex), ("description", .str c.description),
    ("violation_message", .optional .str c.message),
    ("file_extensions", .optional .strings c.extensions),
    ("severity", .nat c.severity.number), ("tags", .strings c.tags)]

/-- The message of the findings. An empty message is replaced by the default one. -/
def messageText (c : CustomRule) : String :=
  match c.message with
  | some m =>
    if m.isEmpty then "A match of the regular expression " ++ c.regex ++ " was found." else m
  | none => "A match of the regular expression " ++ c.regex ++ " was found."

end CustomRule

namespace PatternRule

/-- The failure of a custom rule whose pattern does not compile. -/
def patternFault (name regex : String) (problem : Pattern.Problem) : Fault :=
  match problem with
  | .malformed .. =>
    .raised .value ("Custom regex rule '" ++ name ++ "' has an invalid regex: " ++ problem.text regex)
  | .countTooLarge => .raised .overflow (problem.text regex)
  | .bothAlphabets => .raised .value (problem.text regex)

/-- The rule of a declaration. -/
def ofDeclaration (name : String) (declared : Json) : Except Fault PatternRule := do
  let c ← (Schema.customRule declared).orFault "CustomRuleConfig"
  match Pattern.compile Pattern.ruleFlags c.regex with
  | .error problem => throw (patternFault name c.regex problem)
  | .ok pattern =>
    pure
      { name, pattern
        description := c.description
        message := c.messageText
        extensions := (c.extensions.getD defaultExtensions).map normalizeExtension
        severity := c.severity
        tags := c.tags }

/-- Adds custom rules to a list of rules. Each needs a name that is not taken. -/
def declare (rules : List PatternRule) : List (String × Json) → Except Fault (List PatternRule)
  | [] => .ok rules
  | (name, declared) :: rest => do
    if rules.any (·.name = name) then
      throw (.raised .value
        ("Custom regex rule '" ++ name ++ "' clashes with a built-in rule name"))
    let r ← ofDeclaration name declared
    declare (rules ++ [r]) rest

/-- The built-in rules and the custom rules of the settings. -/
def build (config : EngineConfig) : Except Fault (List PatternRule) :=
  let declared := (OrderedMap.find "custom_rules" config).getD .null
  if !declared.isTruthy then .ok builtin
  else
    match declared with
    | .obj fields => declare builtin fields
    | v =>
      .error (.raised .attribute ("'" ++ v.kindName ++ "' object has no attribute 'items'"))

def find? (rules : List PatternRule) (name : String) : Option PatternRule :=
  rules.find? (·.name = name)

end PatternRule

end Polyscan
