import Polyscan.Analyzer.Registry
import Polyscan.Proofs.Results
import Polyscan.Proofs.Run.Script

/-!
The outcome of `run` where no listener raises: results with one entry for each engine of the selection if
every report is accepted, and else the refusal of the first report that is not.
-/
namespace Polyscan.Analyzer

/-- The engine raises, or its report is acceptable. -/
def Accepts (a : Analyzer) (selection : Selection) (o : RunOptions) (engine : String) : Prop :=
  ∀ r, (a.performance selection o engine).report = .ok r → r.Acceptable a.host selection engine

/-- The results that a run keeps for an engine. -/
def Keeps (a : Analyzer) (selection : Selection) (o : RunOptions) (engine : String)
    (e : EngineResults) : Prop :=
  (∃ f, (a.performance selection o engine).report = .error f ∧ e = .failure engine f) ∨
    ∃ r fs, (a.performance selection o engine).report = .ok r ∧ r.Reads fs ∧
      (∀ x ∈ fs, x.Sound a.host selection engine) ∧ e.Accepts selection engine fs

variable {a : Analyzer} {selection : Selection} {o : RunOptions} {engine : String}

/-! ## One engine -/

theorem verdict_eq_ok_iff {e : EngineResults} :
    a.verdict selection o engine = .ok e ↔ a.Keeps selection o engine e := by
  unfold verdict Keeps
  cases hreport : (a.performance selection o engine).report with
  | error f => simp [eq_comm]
  | ok r =>
    rw [acceptReported_eq_ok_iff]
    simp

theorem verdict_isOk_iff :
    (∃ e, a.verdict selection o engine = .ok e) ↔ a.Accepts selection o engine := by
  unfold verdict Accepts
  cases hreport : (a.performance selection o engine).report with
  | error f => simp
  | ok r =>
    simp only [Except.ok.injEq, forall_eq']
    constructor
    · intro h
      obtain ⟨e, he⟩ := h
      obtain ⟨fs, hfs, hsound, -⟩ := acceptReported_eq_ok_iff.mp he
      exact ⟨fs, hfs, hsound⟩
    · intro h
      obtain ⟨fs, hfs, hsound⟩ := h
      obtain ⟨e, he⟩ := EngineResults.ofFindings_isOk hsound
      exact ⟨e, acceptReported_eq_ok_iff.mpr
        ⟨fs, hfs, hsound, EngineResults.ofFindings_eq_ok_iff.mp he⟩⟩

theorem not_accepts_of_error {f : Fault} (hf : a.verdict selection o engine = .error f) :
    ¬ a.Accepts selection o engine := by
  rw [← verdict_isOk_iff, hf]
  simp

/-- A refusal is due to a report that is not acceptable. -/
theorem verdict_error {f : Fault} (hf : a.verdict selection o engine = .error f) :
    ∃ r, (a.performance selection o engine).report = .ok r ∧ ¬ r.Acceptable a.host selection engine ∧
      f.ContractUnless (r.Untold a.host selection engine) := by
  unfold verdict at hf
  cases hreport : (a.performance selection o engine).report with
  | error g => simp [hreport] at hf
  | ok r =>
    simp only [hreport] at hf
    exact ⟨r, rfl, acceptReported_error hf⟩

theorem Keeps.engine_eq {e : EngineResults} (h : a.Keeps selection o engine e) : e.engine = engine := by
  rcases h with ⟨f, -, rfl⟩ | ⟨r, fs, -, -, -, he⟩
  · rfl
  · exact he.1

/-- An entry is a failure if and only if the engine raised. -/
theorem Keeps.isFailure_iff {e : EngineResults} (h : a.Keeps selection o engine e) :
    e.isFailure = true ↔ ∃ f, (a.performance selection o engine).report = .error f := by
  rcases h with ⟨f, hf, rfl⟩ | ⟨r, fs, hr, -, -, -, vs, hvs, -⟩
  · simp [EngineResults.isFailure, EngineResults.failure, Except.isOk, Except.toBool, hf]
  · simp [EngineResults.isFailure, hvs, Except.isOk, Except.toBool, hr]

/-! ## All engines -/

theorem verdicts_eq_ok_iff {engines : List String} {l : List EngineResults} :
    a.verdicts selection o engines = .ok l ↔ List.Forall₂ (a.Keeps selection o) engines l := by
  rw [verdicts, mapM_eq_ok_iff]
  simp only [verdict_eq_ok_iff]

theorem started_sublist (engines : List String) :
    (a.started selection o engines).Sublist engines := by
  induction engines with
  | nil => exact List.Sublist.refl []
  | cons engine rest ih =>
    rw [started, List.cons_sublist_cons]
    cases a.verdict selection o engine with
    | ok e => exact ih
    | error f => exact List.nil_sublist rest

theorem started_of_accepts {engines : List String}
    (h : ∀ engine ∈ engines, a.Accepts selection o engine) : a.started selection o engines = engines := by
  induction engines with
  | nil => rfl
  | cons engine rest ih =>
    obtain ⟨e, he⟩ := verdict_isOk_iff.mpr (h engine List.mem_cons_self)
    rw [started, he]
    simp only [ih fun x hx => h x (List.mem_cons_of_mem _ hx)]

theorem verdicts_isOk_iff {engines : List String} :
    (∃ l, a.verdicts selection o engines = .ok l) ↔ ∀ engine ∈ engines, a.Accepts selection o engine := by
  constructor
  · rintro ⟨l, hl⟩ engine hengine
    obtain ⟨e, -, he⟩ := exists_partner (verdicts_eq_ok_iff.mp hl) hengine
    exact verdict_isOk_iff.mp ⟨e, verdict_eq_ok_iff.mpr he⟩
  · intro h
    induction engines with
    | nil => exact ⟨[], rfl⟩
    | cons engine rest ih =>
      obtain ⟨e, he⟩ := verdict_isOk_iff.mpr (h engine List.mem_cons_self)
      obtain ⟨l, hl⟩ := ih fun x hx => h x (List.mem_cons_of_mem _ hx)
      exact ⟨e :: l, by rw [verdicts_cons, he, hl]; rfl⟩

/-- A refusal is that of the first engine that is not accepted, which is the last one started. -/
theorem verdicts_error {engines : List String} {f : Fault}
    (h : a.verdicts selection o engines = .error f) :
    ∃ engine, FirstBad (a.Accepts selection o) engines engine ∧
      a.verdict selection o engine = .error f ∧
      ∃ before after, engines = before ++ engine :: after ∧
        a.started selection o engines = before ++ [engine] := by
  induction engines with
  | nil => cases h
  | cons engine rest ih =>
    rw [verdicts_cons] at h
    cases hverdict : a.verdict selection o engine with
    | error g =>
      rw [hverdict] at h
      cases h
      refine ⟨engine, ⟨[], rest, rfl, by simp, not_accepts_of_error hverdict⟩, hverdict, [], rest, rfl, ?_⟩
      rw [started, hverdict]
      rfl
    | ok e =>
      rw [hverdict] at h
      cases hrest : a.verdicts selection o rest with
      | ok l => simp [hrest, Except.map] at h
      | error g =>
        -- the first engine is accepted, so the first bad one is the first bad one of the rest
        simp only [hrest, Except.map, Except.error.injEq] at h
        subst h
        obtain ⟨bad, hfirst, hbad, before, after, hsplit, hstarted⟩ := ih hrest
        refine ⟨bad, hfirst.cons (verdict_isOk_iff.mp ⟨e, hverdict⟩), hbad, engine :: before, after, ?_, ?_⟩
        · rw [hsplit, List.cons_append]
        · rw [started, hverdict, List.cons_append]
          simp only [hstarted]

/-! ## The results -/

/-- The results have one entry for each engine of the selection, in its order, and these are the kept ones. -/
structure ResultsAre (a : Analyzer) (selection : Selection) (o : RunOptions) (results : RunResults) :
    Prop where
  engineNames : results.engineNames = selection.engineNames
  listed : List.Forall₂ (a.Keeps selection o) selection.engineNames results.toList
  entry : ∀ engine e, results.byEngine.get? engine = some e ↔
    engine ∈ selection.engineNames ∧ a.Keeps selection o engine e
  failed : ∀ engine, engine ∈ results.failedEngines ↔
    engine ∈ selection.engineNames ∧ ∃ f, (a.performance selection o engine).report = .error f

section

variable {engines : List String} {l : List EngineResults} {R : String → EngineResults → Prop}

/-- Results that belong to engines, each to one of them, are those of these engines. -/
theorem engines_of_partners (hengine : ∀ x e, R x e → e.engine = x) (h : List.Forall₂ R engines l) :
    l.map EngineResults.engine = engines := by
  induction h with
  | nil => rfl
  | cons hfirst _ ih => rw [List.map_cons, hengine _ _ hfirst, ih]

theorem mem_iff_of_partners (hengine : ∀ x e, R x e → e.engine = x)
    (hsame : ∀ x e e', R x e → R x e' → e = e') (h : List.Forall₂ R engines l) {x : String}
    {e : EngineResults} : (e ∈ l ∧ e.engine = x) ↔ x ∈ engines ∧ R x e := by
  constructor
  · rintro ⟨he, rfl⟩
    obtain ⟨y, hy, hye⟩ := exists_partner h.flip he
    rw [hengine y e hye]
    exact ⟨hy, hye⟩
  · rintro ⟨hx, hxe⟩
    obtain ⟨e', he', hxe'⟩ := exists_partner h hx
    obtain rfl := hsame x e e' hxe hxe'
    exact ⟨he', hengine x e hxe⟩

/-- Results of different engines keep all of them, in their order. -/
theorem ofList_of_partners (hengine : ∀ x e, R x e → e.engine = x)
    (hsame : ∀ x e e', R x e → R x e' → e = e') (hnodup : engines.Nodup) (h : List.Forall₂ R engines l) :
    (RunResults.ofList l).engineNames = engines ∧
      ∀ x e, (RunResults.ofList l).byEngine.get? x = some e ↔ x ∈ engines ∧ R x e := by
  have hengines := engines_of_partners hengine h
  have hdistinct : (l.map EngineResults.engine).Nodup := by rwa [hengines]
  exact ⟨(RunResults.engineNames_ofList hdistinct).trans hengines, fun x e =>
    (RunResults.get?_ofList_iff hdistinct).trans (mem_iff_of_partners hengine hsame h)⟩

end

theorem Keeps.unique {e e' : EngineResults} (h : a.Keeps selection o engine e)
    (h' : a.Keeps selection o engine e') : e = e' := by
  rw [← verdict_eq_ok_iff] at h h'
  exact Except.ok.inj (h.symm.trans h')

theorem resultsAre_ofList {l : List EngineResults}
    (h : List.Forall₂ (a.Keeps selection o) selection.engineNames l) :
    a.ResultsAre selection o (.ofList l) := by
  have hengine : ∀ x e, a.Keeps selection o x e → e.engine = x := fun x e => Keeps.engine_eq
  have hsame : ∀ x e e', a.Keeps selection o x e → a.Keeps selection o x e' → e = e' :=
    fun x e e' => Keeps.unique
  -- engines of a selection differ, so no entry takes the place of another
  have hnodup : (l.map EngineResults.engine).Nodup :=
    engines_of_partners hengine h ▸ selection.groups.keys_nodup
  obtain ⟨hnames, hentry⟩ := ofList_of_partners hengine hsame selection.groups.keys_nodup h
  exact
    { engineNames := hnames
      listed := by rwa [RunResults.toList_ofList hnodup]
      entry := hentry
      failed := fun engine => by
        rw [RunResults.failedEngines_ofList hnodup, List.mem_map]
        constructor
        · intro hfound
          obtain ⟨e, he, rfl⟩ := hfound
          rw [List.mem_filter] at he
          obtain ⟨hengine, hkeeps⟩ := (mem_iff_of_partners hengine hsame h).mp ⟨he.1, rfl⟩
          exact ⟨hengine, hkeeps.isFailure_iff.mp he.2⟩
        · intro hfails
          obtain ⟨hengine, hfail⟩ := hfails
          obtain ⟨e, he, hkeeps⟩ := exists_partner h hengine
          exact ⟨e, List.mem_filter.mpr ⟨he, hkeeps.isFailure_iff.mpr hfail⟩, hkeeps.engine_eq⟩ }

/-- The outcome is the results if all engines are accepted, and else the refusal of the first one that is not,
which is the last one started. -/
structure ComesTo (a : Analyzer) (selection : Selection) (o : RunOptions)
    (outcome : Except Fault RunResults) : Prop where
  returns : (∃ results, outcome = .ok results) ↔
    ∀ engine ∈ selection.engineNames, a.Accepts selection o engine
  results : ∀ results, outcome = .ok results → a.ResultsAre selection o results
  all : ∀ results, outcome = .ok results →
    a.started selection o selection.engineNames = selection.engineNames
  refusal : ∀ f, outcome = .error f → ∃ engine before after r,
    FirstBad (a.Accepts selection o) selection.engineNames engine ∧
      selection.engineNames = before ++ engine :: after ∧
      a.started selection o selection.engineNames = before ++ [engine] ∧
      (a.performance selection o engine).report = .ok r ∧
      ¬ r.Acceptable a.host selection engine ∧
      f.ContractUnless (r.Untold a.host selection engine)

theorem comesTo_verdicts :
    a.ComesTo selection o
      ((a.verdicts selection o selection.engineNames).map RunResults.ofList) := by
  cases hverdicts : a.verdicts selection o selection.engineNames with
  | ok l =>
    have haccepts := verdicts_isOk_iff.mp ⟨l, hverdicts⟩
    exact
      { returns := ⟨fun _ => haccepts, fun _ => ⟨_, rfl⟩⟩
        results := by
          rintro results hresults
          cases hresults
          exact resultsAre_ofList (verdicts_eq_ok_iff.mp hverdicts)
        all := fun _ _ => started_of_accepts haccepts
        refusal := fun f hf => by cases hf }
  | error f =>
    obtain ⟨engine, hfirst, hverdict, before, after, hsplit, hstarted⟩ := verdicts_error hverdicts
    obtain ⟨r, hr, hnot, hemits⟩ := verdict_error hverdict
    exact
      { returns := by
          rw [← verdicts_isOk_iff, hverdicts]
          simp [Except.map]
        results := fun _ hresults => by cases hresults
        all := fun _ hresults => by cases hresults
        refusal := by
          intro g hg
          cases hg
          exact ⟨engine, before, after, r, hfirst, hsplit, hstarted, hr, hnot, hemits⟩ }

/-- `run` with resolved options on registered engines, where no listener raises on an event of `runEvents`. -/
theorem run_comesTo {w : Workspace} {points : List String}
    (hresolved : RunOptions.resolve a.host w points = .ok o)
    (hregistered : ∀ engine ∈ selection.engineNames, engine ∈ a.engineNames)
    (hquiet : a.TakesAll (a.runEvents selection o)) :
    ∃ outcome b, (run selection w points).drive a = (outcome, b) ∧ a.ComesTo selection o outcome ∧
      Course o (a.runEvents selection o)
        (startsOf selection (a.started selection o selection.engineNames)) a b := by
  obtain ⟨b, hdrive, hcourse⟩ := run_of_quiet hresolved hregistered hquiet
  exact ⟨_, b, hdrive, comesTo_verdicts, hcourse⟩

/-! ## Two small engines -/

/-- An engine that logs one message and reports a finding at the beginning of a file. -/
def probe (file : String) : ExternalEngine where
  name := .ok "probe"
  describe _ := { outcome := .ok (.arr []) }
  run _ _ :=
    { messages := [.ok (.log .info "Looking for tabs.")]
      report := .ok (.findings
        [{ rule := "Tab", message := "A tab.", primaryIndex := 0, resourceUrls := [],
           locations := [{ file, startLine := 1, startColumn := 1 }] }]) }

/-- An engine whose run raises. -/
def broken : ExternalEngine where
  name := .ok "broken"
  describe _ := { outcome := .ok (.arr []) }
  run _ _ := { report := .error (.raised .runtime "Out of order.") }

/-- A plugin with both engines. -/
def toolbox (file : String) : Plugin where
  names := .ok ["probe", "broken"]
  make name _ := { outcome := .ok (.external (if name = "probe" then probe file else broken)) }

/-- A rule of each of the engines. -/
def toolboxRules : List Rule :=
  [⟨"probe", { name := "Tab", severity := .low }⟩, ⟨"broken", { name := "Any", severity := .low }⟩]

/-- An analyzer on a machine with one file. -/
def oneFile : Analyzer where
  host := ⟨.folder [("main.py", .file (.bytes []))], [], "/home/user", []⟩

def oneFileWorkspace : Workspace := ⟨0, "workspace1", ["/main.py"]⟩

/-- The analyzer after the plugin was added. -/
def equipped (file : String) : Analyzer := ((addPlugin (toolbox file)).drive oneFile).2

end Polyscan.Analyzer
