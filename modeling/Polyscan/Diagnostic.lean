import Polyscan.Json.Writer

/-!
The messages of the analyzer: one template with numbered gaps for each kind of message, and the messages as
values with the arguments of their gaps.
-/
namespace Polyscan

/-- A piece of fixed text, or a gap with the number of its argument. -/
inductive Piece where
  | lit (text : String)
  | arg (index : Nat)
  deriving DecidableEq, Repr

/-- A named message with gaps. -/
structure Template where
  name : String
  pieces : List Piece
  deriving DecidableEq, Repr

namespace Template

/-- Fills the gaps from left to right; arguments that no gap asks for are ignored. Fails with the number
of the first gap that has no argument. -/
def fill (args : List String) : List Piece → Except Nat String
  | [] => .ok ""
  | .lit text :: rest => do
    let tail ← fill args rest
    pure (text ++ tail)
  | .arg i :: rest =>
    match args[i]? with
    | none => .error i
    | some a => do
      let tail ← fill args rest
      pure (a ++ tail)

/-- Engines of a plugin written for a newer interface than the supported one. -/
def futureApi : Template where
  name := "EngineFromFutureApiDetected"
  pieces := [
    .lit "The following engines use API version ", .arg 0,
    .lit " which is newer than the supported version ", .arg 2, .lit ": ", .arg 1,
    .lit ". They may not behave as expected."]

/-- A plugin failed while it listed its engines. -/
def pluginNames : Template where
  name := "PluginErrorFromGetAvailableEngineNames"
  pieces := [
    .lit "Failed to get the available engine names from an engine plugin. Error: ", .arg 0]

/-- A plugin failed to build an engine. -/
def createEngine : Template where
  name := "PluginErrorFromCreateEngine"
  pieces := [
    .lit "Failed to create engine with name '", .arg 0, .lit "' due to the following error:\n",
    .arg 1]

/-- An engine of this name is registered already. -/
def duplicateEngine : Template where
  name := "DuplicateEngine"
  pieces := [
    .lit "Failed to add engine with name '", .arg 0,
    .lit "' because an engine with this name has already been added. Skipping."]

/-- An engine calls itself by another name than its plugin. -/
def nameContradiction : Template where
  name := "EngineNameContradiction"
  pieces := [
    .lit "Failed to add engine with name '", .arg 0,
    .lit "' because the engine reported its own name as '", .arg 1, .lit "'. Skipping."]

/-- An engine was registered. -/
def engineAdded : Template where
  name := "EngineAdded"
  pieces := [
    .lit "Engine with name '", .arg 0, .lit "' was added to Code Analyzer."]

/-- A plugin module could not be loaded. -/
def moduleNotLoaded : Template where
  name := "FailedToDynamicallyLoadModule"
  pieces := [
    .lit "Failed to load engine plugin module '", .arg 0, .lit "'. Error: ", .arg 1]

/-- A module offers no way to make a plugin. -/
def moduleWithoutFactory : Template where
  name := "FailedToDynamicallyAddEnginePlugin"
  pieces := [
    .lit "Failed to add engine plugin from module '", .arg 0,
    .lit "' because it does not expose a callable 'create_engine_plugin'."]

/-- An engine described two rules of one name. -/
def repeatedRule : Template where
  name := "EngineReturnedMultipleRulesWithSameName"
  pieces := [
    .lit "Engine '", .arg 0, .lit "' returned more than one rule with the name '", .arg 1,
    .lit "'."]

/-- Rule descriptions that do not have the required shape. -/
def malformedDescriptions : Template where
  name := "EngineReturnedMalformedRuleDescriptions"
  pieces := [
    .lit "Engine '", .arg 0,
    .lit "' returned rule descriptions that do not match the engine API: ", .arg 1]

/-- The configuration replaced a property of a rule. -/
def overridden : Template where
  name := "RulePropertyOverridden"
  pieces := [
    .lit "The ", .arg 0, .lit " of rule '", .arg 1, .lit "' of engine '", .arg 2,
    .lit "' was overridden: ", .arg 3, .lit " -> ", .arg 4]

/-- A rule was looked up that the selection does not hold. -/
def ruleNotSelected : Template where
  name := "RuleDoesNotExistInSelection"
  pieces := [
    .lit "No rule with name '", .arg 1, .lit "' and engine '", .arg 0,
    .lit "' exists among the selected rules."]

/-- A workspace input that does not exist. -/
def missingPath : Template where
  name := "FileOrFolderDoesNotExist"
  pieces := [
    .lit "The file or folder '", .arg 0, .lit "' does not exist."]

/-- A run over a workspace without inputs. -/
def emptyWorkspace : Template where
  name := "AtLeastOneFileOrFolderMustBeIncluded"
  pieces := [
    .lit "At least one file or folder must be included in the workspace."]

/-- A start point that does not follow the grammar. -/
def malformedStartPoint : Template where
  name := "InvalidPathStartPoint"
  pieces := [
    .lit "The path start point '", .arg 0,
    .lit "' is invalid. Expected a file or folder, optionally followed by '#' and a semicolon separated list of method names."]

/-- The file of a start point with methods does not exist. -/
def startPointMissing : Template where
  name := "PathStartPointFileDoesNotExist"
  pieces := [
    .lit "The file '", .arg 1, .lit "' of path start point '", .arg 0, .lit "' does not exist."]

/-- Methods were named in a folder. -/
def startPointFolder : Template where
  name := "PathStartPointWithMethodMustNotBeFolder"
  pieces := [
    .lit "The path start point '", .arg 0, .lit "' names methods but '", .arg 1,
    .lit "' is a folder, not a file."]

/-- A start point outside the workspace. -/
def startPointOutside : Template where
  name := "PathStartPointMustBeInsideWorkspace"
  pieces := [
    .lit "The path start point file '", .arg 0, .lit "' is not inside the workspace: ", .arg 1]

/-- What a run was asked to do. -/
def runOptions : Template where
  name := "RunningWithRunOptions"
  pieces := [
    .lit "Running with the following run options: ", .arg 0]

/-- The rules an engine is about to run. -/
def engineRules : Template where
  name := "RunningEngineWithRules"
  pieces := [
    .lit "Running engine '", .arg 0, .lit "' with the following rules: ", .arg 1]

/-- An engine failed while it ran. -/
def engineRunFailed : Template where
  name := "EngineRunFailed"
  pieces := [
    .lit "Engine '", .arg 0, .lit "' failed unexpectedly while running rules: ", .arg 1]

/-- Run results that do not have the required shape. -/
def malformedResults : Template where
  name := "EngineReturnedMalformedResults"
  pieces := [
    .lit "Engine '", .arg 0, .lit "' returned results that do not match the engine API: ", .arg 1]

/-- A finding for a rule that was not selected. -/
def unselectedRule : Template where
  name := "EngineReturnedViolationForUnselectedRule"
  pieces := [
    .lit "Engine '", .arg 0, .lit "' returned a violation for rule '", .arg 1,
    .lit "' which was not selected."]

/-- A primary location index outside the list of locations. -/
def primaryIndex : Template where
  name := "EngineReturnedViolationWithInvalidPrimaryLocationIndex"
  pieces := [
    .lit "Engine '", .arg 0, .lit "' returned a violation for rule '", .arg 1,
    .lit "' with primary location index ", .arg 2,
    .lit ", but it must be an integer between 0 and ", .arg 3,
    .lit " (one less than the number of code locations)."]

/-- A location in a file that does not exist. -/
def locationMissing : Template where
  name := "EngineReturnedViolationWithCodeLocationFileThatDoesNotExist"
  pieces := [
    .lit "Engine '", .arg 0, .lit "' returned a violation for rule '", .arg 1,
    .lit "' with a code location file that does not exist: ", .arg 2]

/-- A location in something that is no file. -/
def locationFolder : Template where
  name := "EngineReturnedViolationWithCodeLocationFileAsFolder"
  pieces := [
    .lit "Engine '", .arg 0, .lit "' returned a violation for rule '", .arg 1,
    .lit "' with a code location file that is a folder: ", .arg 2]

/-- A line or column that is no positive whole number. -/
def coordinate : Template where
  name := "EngineReturnedViolationWithCodeLocationWithInvalidLineOrColumn"
  pieces := [
    .lit "Engine '", .arg 0, .lit "' returned a violation for rule '", .arg 1,
    .lit "' with a code location whose ", .arg 2, .lit " is ", .arg 3,
    .lit ", but it must be a positive integer."]

/-- A location that ends on a line before its first. -/
def endLineBeforeStart : Template where
  name := "EngineReturnedViolationWithCodeLocationWithEndLineBeforeStartLine"
  pieces := [
    .lit "Engine '", .arg 0, .lit "' returned a violation for rule '", .arg 1,
    .lit "' with a code location whose endLine ", .arg 2, .lit " is before its startLine ",
    .arg 3, .lit "."]

/-- A location that ends before it starts on one line. -/
def endColumnBeforeStart : Template where
  name := "EngineReturnedViolationWithCodeLocationWithEndColumnBeforeStartColumnOnSameLine"
  pieces := [
    .lit "Engine '", .arg 0, .lit "' returned a violation for rule '", .arg 1,
    .lit "' with a code location whose endColumn ", .arg 2, .lit " is before its startColumn ",
    .arg 3, .lit " on the same line."]

/-- All templates. -/
def catalogue : List Template := [
  futureApi, pluginNames, createEngine, duplicateEngine, nameContradiction, engineAdded,
  moduleNotLoaded, moduleWithoutFactory, repeatedRule, malformedDescriptions, overridden,
  ruleNotSelected, missingPath, emptyWorkspace, malformedStartPoint, startPointMissing,
  startPointFolder, startPointOutside, runOptions, engineRules, engineRunFailed,
  malformedResults, unselectedRule, primaryIndex, locationMissing, locationFolder, coordinate,
  endLineBeforeStart, endColumnBeforeStart]

def find? (name : String) : Option Template := catalogue.find? fun t => t.name == name

end Template

/-- The newest plugin interface that is understood. -/
def supportedApi : Int := 1

/-- A message of the analyzer. -/
inductive Diagnostic where
  | futureApi (version : Int) (names : List String)
  | pluginNames (problem : String)
  | createEngine (engine problem : String)
  | duplicateEngine (engine : String)
  | nameContradiction (engine reported : String)
  | engineAdded (engine : String)
  | moduleNotLoaded (reference problem : String)
  | moduleWithoutFactory (reference : String)
  | repeatedRule (engine rule : String)
  | malformedDescriptions (engine report : String)
  | overridden (property rule engine before after : String)
  | ruleNotSelected (engine rule : String)
  | missingPath (path : String)
  | emptyWorkspace
  | malformedStartPoint (point : String)
  | startPointMissing (point file : String)
  | startPointFolder (point file : String)
  | startPointOutside (file : String) (inputs : List String)
  | runOptions (options : Json)
  | engineRules (engine : String) (rules : List String)
  | engineRunFailed (engine problem : String)
  | malformedResults (engine report : String)
  | unselectedRule (engine rule : String)
  | primaryIndex (engine rule index : String) (last : Int)
  | locationMissing (engine rule file : String)
  | locationFolder (engine rule file : String)
  | coordinate (engine rule field value : String)
  | endLineBeforeStart (engine rule endLine startLine : String)
  | endColumnBeforeStart (engine rule endColumn startColumn : String)

namespace Diagnostic

def template : Diagnostic → Template
  | .futureApi .. => .futureApi
  | .pluginNames .. => .pluginNames
  | .createEngine .. => .createEngine
  | .duplicateEngine .. => .duplicateEngine
  | .nameContradiction .. => .nameContradiction
  | .engineAdded .. => .engineAdded
  | .moduleNotLoaded .. => .moduleNotLoaded
  | .moduleWithoutFactory .. => .moduleWithoutFactory
  | .repeatedRule .. => .repeatedRule
  | .malformedDescriptions .. => .malformedDescriptions
  | .overridden .. => .overridden
  | .ruleNotSelected .. => .ruleNotSelected
  | .missingPath .. => .missingPath
  | .emptyWorkspace => .emptyWorkspace
  | .malformedStartPoint .. => .malformedStartPoint
  | .startPointMissing .. => .startPointMissing
  | .startPointFolder .. => .startPointFolder
  | .startPointOutside .. => .startPointOutside
  | .runOptions .. => .runOptions
  | .engineRules .. => .engineRules
  | .engineRunFailed .. => .engineRunFailed
  | .malformedResults .. => .malformedResults
  | .unselectedRule .. => .unselectedRule
  | .primaryIndex .. => .primaryIndex
  | .locationMissing .. => .locationMissing
  | .locationFolder .. => .locationFolder
  | .coordinate .. => .coordinate
  | .endLineBeforeStart .. => .endLineBeforeStart
  | .endColumnBeforeStart .. => .endColumnBeforeStart

/-- What fills the gaps of the template. -/
def args : Diagnostic → List String
  | .futureApi version names => [toString version, Json.renderStrings names, toString supportedApi]
  | .pluginNames problem => [problem]
  | .createEngine engine problem => [engine, problem]
  | .duplicateEngine engine => [engine]
  | .nameContradiction engine reported => [engine, reported]
  | .engineAdded engine => [engine]
  | .moduleNotLoaded reference problem => [reference, problem]
  | .moduleWithoutFactory reference => [reference]
  | .repeatedRule engine rule => [engine, rule]
  | .malformedDescriptions engine report => [engine, report]
  | .overridden property rule engine before after => [property, rule, engine, before, after]
  | .ruleNotSelected engine rule => [engine, rule]
  | .missingPath path => [path]
  | .emptyWorkspace => []
  | .malformedStartPoint point => [point]
  | .startPointMissing point file => [point, file]
  | .startPointFolder point file => [point, file]
  | .startPointOutside file inputs => [file, Json.renderStrings inputs]
  | .runOptions options => [options.render]
  | .engineRules engine rules => [engine, Json.renderStrings rules]
  | .engineRunFailed engine problem => [engine, problem]
  | .malformedResults engine report => [engine, report]
  | .unselectedRule engine rule => [engine, rule]
  | .primaryIndex engine rule index last => [engine, rule, index, toString last]
  | .locationMissing engine rule file => [engine, rule, file]
  | .locationFolder engine rule file => [engine, rule, file]
  | .coordinate engine rule field value => [engine, rule, field, value]
  | .endLineBeforeStart engine rule endLine startLine => [engine, rule, endLine, startLine]
  | .endColumnBeforeStart engine rule endColumn startColumn => [engine, rule, endColumn, startColumn]

def text (d : Diagnostic) : String := ((d.template.pieces |> Template.fill d.args).toOption).getD ""

/-- Every message has the arguments that its template asks for. -/
theorem fill_isOk (d : Diagnostic) : (Template.fill d.args d.template.pieces).isOk = true := by
  cases d <;> rfl

end Diagnostic

end Polyscan
