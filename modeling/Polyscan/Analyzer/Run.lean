import Polyscan.Analyzer.Catalogue
import Polyscan.Finding.Check
import Polyscan.Scan

/-!
Runs. The selected engines run one after another. The report of an engine is checked before the next one
starts. An engine that fails has its failure as result; a report that breaks the contract ends the run.
-/
namespace Polyscan.Analyzer

/-! ## The built-in engine -/

/-- Whether a file is one of the roots or lies beneath one. -/
def isWithinAny (roots : List String) (file : String) : Bool := roots.any (Path.isWithin file)

/-- The files in the scope of the options. -/
def filesInScope (o : RunOptions) (files : List String) : List String :=
  match o.startPoints with
  | none | some [] => files
  | some points => files.filter (isWithinAny (points.map PathPoint.file))

/-- The rules with the given names, or the names of no rule. -/
def rulesNamed (rules : List PatternRule) (names : List String) : Except (List String) (List PatternRule) :=
  match names.filter fun n => (PatternRule.find? rules n).isNone with
  | [] => .ok (names.filterMap (PatternRule.find? rules))
  | missing => .error missing

/-- The failure for names of no rule. -/
def unknownRules (missing : List String) : Fault :=
  .raised .value ("The regex engine has no rules named: " ++ Text.join ", " missing)

/-- The log message of the built-in engine before it scans. -/
def scanNotice (files : Nat) (names : List String) : EngineMessage :=
  .log .fine ("Scanning " ++ toString files ++ " files with rules " ++ Json.shownStrings names)

/-- Scans files one after another, with a progress message after each of them. -/
def scanFiles (engine : String) (rules : List PatternRule) (total : Nat) :
    Nat → List String → Work Analyzer (List (Finding Int))
  | _, [] => pure []
  | done, file :: rest =>
    (Work.pause 1).bind fun _ =>
      (Work.now do
        let found ← PatternRule.scanFile (← get).host rules file
        forward engine (.progress (.share (done + 1) total))
        pure found).bind fun found =>
          (scanFiles engine rules total (done + 1) rest).bind fun more => pure (found ++ more)

/-- A run of the built-in engine. -/
def runPatterns (engine : String) (rules : List PatternRule) (names : List String) (o : RunOptions) :
    Work Analyzer (List (Finding Int)) :=
  match rulesNamed rules names with
  | .error missing => throw (unknownRules missing)
  | .ok chosen =>
    (expandedFiles o.workspace).bind fun files =>
      let files := filesInScope o files
      (Work.now (forward engine (scanNotice files.length names))).bind fun _ =>
        scanFiles engine chosen files.length 0 files

/-! ## All engines -/

/-- A run of an engine from a plugin. -/
def runExternal (engine : String) (e : ExternalEngine) (names : List String) (o : RunOptions) :
    Work Analyzer Reported :=
  let conduct := e.run names o
  (Work.now do
    modify (adjustSlot engine fun slot => { slot with runs := slot.runs ++ [(names, o)] })).bind fun _ =>
      (Work.pause conduct.rounds).bind fun _ =>
        Work.now do
          forwardAll engine conduct.messages
          conduct.report

/-- What an engine reports when it runs. -/
def runEngine (engine : String) (slot : Slot) (names : List String) (o : RunOptions) :
    Work Analyzer Reported :=
  match slot.engine with
  | .patterns rules => Reported.findings <$> runPatterns engine rules names o
  | .external e => runExternal engine e names o

/-- The validated findings of a report. -/
def checkReported (engine : String) : Reported → Except Fault (List (Finding Int))
  | .findings list => .ok list
  | .data v =>
    match (Schema.findings v).orFault "EngineRunResults" with
    | .ok list => .ok list
    | .error f => .error (.contract (.malformedResults engine f.text))

/-- The results of a report: its findings pass the checks and get their rules. -/
def acceptReported (h : Host) (selection : Selection) (engine : String) (r : Reported) :
    Except Fault EngineResults := do
  let findings ← checkReported engine r
  Finding.checkAll h selection engine findings
  EngineResults.ofFindings selection engine findings

/-- Runs one engine and gives its results. -/
def resultsOf (selection : Selection) (o : RunOptions) (engine : String) : Work Analyzer EngineResults :=
  let names := (selection.rulesFor engine).map Rule.name
  (Work.now do
    say .debug (.engineRules engine names)
    slot engine).bind fun slot =>
      (runEngine engine slot names o).attempt.bind fun
        | .error f => Work.now do
          say .error (.engineRunFailed engine f.text)
          pure (.failure engine f)
        | .ok r => Work.now do acceptReported (← get).host selection engine r

/-- Runs engines one after another and adds their results. -/
def runAll (selection : Selection) (o : RunOptions) : List String → RunResults → Work Analyzer RunResults
  | [], results => pure results
  | engine :: rest, results =>
    (Work.now (emit (.progress engine (.given (.ofNat 0))))).bind fun _ =>
      (resultsOf selection o engine).bind fun r =>
        (Work.now do
          emit (.progress engine (.given (.ofNat 100)))
          emit (.results r)).bind fun _ => runAll selection o rest (results.add r)

/-- Runs the selected rules over a workspace. -/
def run (selection : Selection) (w : Workspace) (points : List String) : Work Analyzer RunResults :=
  (Work.now do
    let o ← RunOptions.resolve (← get).host w points
    say .debug (.runOptions o.toJson)
    pure o).bind fun o => runAll selection o selection.engineNames .empty

end Polyscan.Analyzer
