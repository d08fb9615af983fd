import Polyscan.Proofs.Run.Outcome

/-!
Isolation of engines in `run`. The entry of an engine depends on that engine, its rules and the files only:
runs that are `Alike` for an engine have the same entry for it, whatever their other engines do. In particular
it is the entry of the run of `only engine`.
-/
namespace Polyscan.Analyzer

/-- In both runs the engine has the same rules, does the same and finds the same files. -/
structure Alike (o : RunOptions) (engine : String) (a a' : Analyzer) (selection selection' : Selection) :
    Prop where
  rules : selection'.rulesByName engine = selection.rulesByName engine
  engine : (a'.slots.get? engine).map Slot.engine = (a.slots.get? engine).map Slot.engine
  host : a'.host = a.host
  files : a'.filesOf o.workspace = a.filesOf o.workspace

variable {o : RunOptions} {engine : String} {a a' : Analyzer} {selection selection' : Selection}

namespace Alike

theorem namesFor_eq (h : Alike o engine a a' selection selection') :
    namesFor selection' engine = namesFor selection engine := by
  unfold namesFor Selection.rulesFor
  rw [h.rules]

theorem find?_eq (h : Alike o engine a a' selection selection') (name : String) :
    selection'.find? engine name = selection.find? engine name := by
  unfold Selection.find?
  rw [h.rules]

theorem performance_eq (h : Alike o engine a a' selection selection') :
    a'.performance selection' o engine = a.performance selection o engine := by
  have hengine := h.engine
  unfold performance
  rw [h.namesFor_eq, h.host, h.files]
  cases hs : a.slots.get? engine <;> cases hs' : a'.slots.get? engine <;> simp_all

theorem sound_iff (h : Alike o engine a a' selection selection') {x : Finding Int} :
    x.Sound a'.host selection' engine ↔ x.Sound a.host selection engine := by
  rw [h.host]
  constructor
  · intro hsound
    obtain ⟨hrule, hindex, hlocations⟩ := hsound
    exact ⟨by simpa only [h.find?_eq] using hrule, hindex, hlocations⟩
  · intro hsound
    obtain ⟨hrule, hindex, hlocations⟩ := hsound
    exact ⟨by simpa only [h.find?_eq] using hrule, hindex, hlocations⟩

theorem accepts_iff (h : Alike o engine a a' selection selection') :
    a'.Accepts selection' o engine ↔ a.Accepts selection o engine := by
  simp only [Accepts, Reported.Acceptable, h.performance_eq, h.sound_iff]

theorem keeps_iff (h : Alike o engine a a' selection selection') {e : EngineResults} :
    a'.Keeps selection' o engine e ↔ a.Keeps selection o engine e := by
  have htied : Violation.Tied selection' engine = Violation.Tied selection engine := by
    funext f v
    simp only [Violation.Tied, h.find?_eq]
  simp only [Keeps, EngineResults.Accepts, h.performance_eq, h.sound_iff, htied]

end Alike

/-- The entry of an engine is the same in two results that keep the same of it. -/
theorem ResultsAre.entry_eq {results results' : RunResults} (hr : a.ResultsAre selection o results)
    (hr' : a'.ResultsAre selection' o results') (h : Alike o engine a a' selection selection')
    (hmem : engine ∈ selection.engineNames) (hmem' : engine ∈ selection'.engineNames) :
    results'.byEngine.get? engine = results.byEngine.get? engine := by
  apply Option.ext
  intro e
  rw [hr.entry, hr'.entry, h.keeps_iff]
  simp only [hmem, hmem', true_and]

/-- The results of a run that returns, and that it accepted every report. -/
theorem resultsAre_of_run {w : Workspace} {points : List String} {results : RunResults} {b : Analyzer}
    (hresolved : RunOptions.resolve a.host w points = .ok o)
    (hregistered : ∀ engine ∈ selection.engineNames, engine ∈ a.engineNames)
    (hquiet : a.TakesAll (a.runEvents selection o))
    (hrun : (run selection w points).drive a = (.ok results, b)) :
    a.ResultsAre selection o results ∧ ∀ engine ∈ selection.engineNames, a.Accepts selection o engine := by
  obtain ⟨outcome, c, hdrive, houtcome, -⟩ := run_comesTo hresolved hregistered hquiet
  rw [hrun] at hdrive
  obtain ⟨hresults, -⟩ := Prod.mk.inj hdrive
  exact ⟨houtcome.results results hresults.symm, houtcome.returns.mp ⟨results, hresults.symm⟩⟩

/-! ## An engine alone -/

theorem Alike.only (hfiled : selection.Filed) (hmem : engine ∈ selection.engineNames) :
    Alike o engine a a selection (selection.only engine) where
  rules := Selection.rulesByName_only hfiled hmem
  engine := rfl
  host := rfl
  files := rfl

/-- The run of one engine alone emits the same events for it. -/
theorem engineEvents_only (hfiled : selection.Filed) (hmem : engine ∈ selection.engineNames)
    (haccepts : a.Accepts selection o engine) :
    a.engineEvents (selection.only engine) o engine = a.engineEvents selection o engine := by
  have halike : Alike o engine a a selection (selection.only engine) := .only hfiled hmem
  obtain ⟨e, he⟩ := verdict_isOk_iff.mpr haccepts
  have halone : a.verdict (selection.only engine) o engine = .ok e :=
    verdict_eq_ok_iff.mpr (halike.keeps_iff.mpr (verdict_eq_ok_iff.mp he))
  unfold engineEvents opening forwarded
  rw [he, halone, halike.namesFor_eq, halike.performance_eq]

theorem takesAll_only (hfiled : selection.Filed) (hmem : engine ∈ selection.engineNames)
    (haccepts : ∀ x ∈ selection.engineNames, a.Accepts selection o x)
    (hquiet : a.TakesAll (a.runEvents selection o)) :
    a.TakesAll (a.runEvents (selection.only engine) o) := by
  have hstarted : a.started (selection.only engine) o [engine] = [engine] := by
    rw [started]
    cases a.verdict (selection.only engine) o engine <;> rfl
  intro event hevent
  rw [runEvents, Selection.engineNames_only hfiled hmem, transcript, hstarted, List.flatMap_singleton,
    engineEvents_only hfiled hmem (haccepts engine hmem)] at hevent
  -- what is published alone is published in the whole run as well
  rcases List.mem_cons.mp hevent with rfl | hevent
  · exact hquiet.head
  · refine hquiet.tail event ?_
    rw [transcript, started_of_accepts haccepts]
    exact List.mem_flatMap.mpr ⟨engine, hmem, hevent⟩

/-- An engine of a run that returns can be run alone. This returns, with the same entry for it. -/
theorem run_only {w : Workspace} {points : List String} (hfiled : selection.Filed)
    (hmem : engine ∈ selection.engineNames)
    (hresolved : RunOptions.resolve a.host w points = .ok o)
    (hregistered : ∀ x ∈ selection.engineNames, x ∈ a.engineNames)
    (hquiet : a.TakesAll (a.runEvents selection o))
    (haccepts : ∀ x ∈ selection.engineNames, a.Accepts selection o x) :
    ∃ alone c, (run (selection.only engine) w points).drive a = (.ok alone, c) ∧
      a.ResultsAre (selection.only engine) o alone := by
  have honly := Selection.engineNames_only hfiled hmem
  have halike : Alike o engine a a selection (selection.only engine) := .only hfiled hmem
  have halone : ∀ x ∈ (selection.only engine).engineNames, a.Accepts (selection.only engine) o x := by
    intro x hx
    rw [honly, List.mem_singleton] at hx
    exact hx ▸ halike.accepts_iff.mpr (haccepts engine hmem)
  have hthere : ∀ x ∈ (selection.only engine).engineNames, x ∈ a.engineNames := by
    intro x hx
    rw [honly, List.mem_singleton] at hx
    exact hx ▸ hregistered engine hmem
  obtain ⟨outcome, c, hdrive, houtcome, -⟩ :=
    run_comesTo hresolved hthere (takesAll_only hfiled hmem haccepts hquiet)
  obtain ⟨alone, rfl⟩ := houtcome.returns.mpr halone
  exact ⟨alone, c, hdrive, houtcome.results alone rfl⟩

/-! ## Two runs -/

theorem mem_engineNames_of_alike (hfiled : selection.Filed) (hmem : engine ∈ selection.engineNames)
    (h : Alike o engine a a' selection selection') : engine ∈ selection'.engineNames := by
  -- an engine of a selection has rules, and only engines of a selection have
  have hrules := hfiled.nonempty engine hmem
  unfold Selection.rulesFor at hrules
  rw [← h.rules] at hrules
  by_contra hnot
  apply hrules
  rw [Selection.rulesByName, OrderedMap.get?_eq_none_iff.mpr hnot]
  rfl

end Polyscan.Analyzer
