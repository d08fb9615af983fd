import Polyscan.Service.Basic

/-! Answers of the service as data. -/
namespace Polyscan

def Rule.toJson (r : Rule) : Json :=
  .obj [("engine", .str r.engine), ("name", .str r.name), ("severity", .nat r.severity.number),
    ("severity_name", .str r.severity.title), ("tags", .strings r.tags),
    ("description", .str r.description.description), ("resource_urls", .strings r.resourceUrls)]

/-- The rules of a selection, engine by engine. -/
def Selection.toJson (s : Selection) : Json :=
  .obj [("rules", .arr (s.toList.map Rule.toJson)), ("count", .nat s.toList.length)]

def Violation.toJson (v : Violation) : Json :=
  .obj [("rule", .str v.rule.name), ("severity", .nat v.severity.number), ("message", .str v.message),
    ("code_locations", .arr (v.locations.map Location.toJson)),
    ("primary_location_index", .int v.primaryIndex), ("resource_urls", .strings v.resourceUrls)]

/-- What became of an engine: its violations, or its failure with the kind of it. -/
def EngineResults.toJson (r : EngineResults) : Json :=
  .obj (("engine", .str r.engine) ::
    match r.outcome with
    | .ok violations =>
      [("status", .str "ok"), ("violations", .arr (violations.map Violation.toJson)), ("error", .null)]
    | .error f =>
      [("status", .str "unexpected_error"), ("violations", .arr []),
        ("error", .str (f.kind.name ++ ": " ++ f.text))])

/-- An event with the parts that its kind has; the other parts are null. -/
def Published.toJson (p : Published LogLevel) : Json :=
  let parts (engine level message percent : Json) : Json :=
    .obj [("type", .str p.event.topic.name), ("timestamp", .nat p.tick), ("engine", engine),
      ("level", level), ("message", message), ("percent_complete", percent)]
  match p.event with
  | .log level message => parts .null (.str level.name) (.str message) .null
  | .engineLog engine level message => parts (.str engine) (.str level.name) (.str message) .null
  | .progress engine percent => parts (.str engine) .null .null (.real percent.toDouble)
  | .results r => parts (.str r.engine) .null .null .null

def RunReport.toJson (r : RunReport) : Json :=
  .obj [("run_id", .str r.workspace.id), ("results", .arr (r.results.toList.map EngineResults.toJson)),
    ("violation_count", .nat r.results.count), ("events", .arr (r.events.map Published.toJson)),
    ("audit", r.audit.toJson)]

end Polyscan
