import Polyscan.Proofs.Run.Outcome

/-!
Soundness of `run`. The violations of a run that returns belong to rules that their engine was asked to run,
and point at places in existing files. A run with any other report does not return.
-/
namespace Polyscan

/-- A violation of a rule that the selection holds for the engine, with a primary location among its
locations, all of which are sound. -/
structure Violation.Sound (h : Host) (selection : Selection) (engine : String) (v : Violation) :
    Prop where
  owner : v.rule.engine = engine
  rule : selection.find? engine v.rule.name = some v.rule
  asked : v.rule.name ∈ Analyzer.namesFor selection engine
  index : 0 ≤ v.primaryIndex ∧ v.primaryIndex ≤ (v.locations.length : Int) - 1
  primary : ∃ l, v.primary = .ok l ∧ v.locations[v.primaryIndex.toNat]? = some l
  locations : ∀ l ∈ v.locations, l.Sound h

/-- An index that is not negative counts from the start. -/
theorem Violation.primary_of_index {v : Violation} (hlow : 0 ≤ v.primaryIndex)
    (hhigh : v.primaryIndex < v.locations.length) :
    ∃ l, v.primary = .ok l ∧ v.locations[v.primaryIndex.toNat]? = some l := by
  have hlt : v.primaryIndex.toNat < v.locations.length := by omega
  have hnot : ¬ v.primaryIndex < 0 := by omega
  refine ⟨v.locations[v.primaryIndex.toNat], ?_, List.getElem?_eq_getElem hlt⟩
  simp [primary, hnot, hlow, List.getElem?_eq_getElem hlt]

/-- A sound finding becomes a sound violation. -/
theorem Violation.sound_of_tied {h : Host} {selection : Selection} {engine : String} {f : Finding Int}
    {v : Violation} (hfiled : selection.Filed) (htied : v.Tied selection engine f)
    (hf : f.Sound h selection engine) : v.Sound h selection engine := by
  obtain ⟨rule, hrule, rfl⟩ := htied
  obtain ⟨howner, hname⟩ := hfiled.rule engine f.rule rule hrule
  obtain ⟨hlow, hhigh⟩ := hf.index
  exact
    { owner := howner
      rule := by
        change selection.find? engine rule.name = some rule
        rwa [hname]
      asked := List.mem_map_of_mem (Selection.mem_rulesFor_of_find? hrule)
      index := ⟨hlow, Int.le_sub_one_of_lt hhigh⟩
      primary := Violation.primary_of_index hlow hhigh
      locations := hf.locations }

namespace Analyzer

variable {a : Analyzer} {selection : Selection} {o : RunOptions}

/-- All violations in the results that a run keeps for an engine are sound. -/
theorem Keeps.violations_sound {engine : String} {e : EngineResults} (hfiled : selection.Filed)
    (h : a.Keeps selection o engine e) : ∀ v ∈ e.violations, v.Sound a.host selection engine := by
  rcases h with ⟨f, -, rfl⟩ | ⟨r, fs, -, -, hsound, -, vs, hvs, htied⟩
  · intro v hv
    cases hv
  · intro v hv
    have hmem : v ∈ vs := by simpa [EngineResults.violations, hvs, Except.toOption] using hv
    obtain ⟨f, hf, hfv⟩ := exists_partner htied.flip hmem
    exact Violation.sound_of_tied hfiled hfv (hsound f hf)

/-- `run` on rules of registered engines, where no listener raises on an event of `runEvents`. It returns if
and only if the report of every engine is acceptable; then the results hold the findings of each report in
order, and every violation is `Sound`. Otherwise it fails at the first engine whose report is not acceptable,
with a breach of the engine contract, unless the first violation in that report is `Untold`: its file cannot
be looked up, and that failure comes before the check. -/
theorem run_sound (rules : List Rule) {a : Analyzer} {w : Workspace} {points : List String}
    {o : RunOptions} (hresolved : RunOptions.resolve a.host w points = .ok o)
    (hregistered : ∀ engine ∈ (Selection.ofList rules).engineNames, engine ∈ a.engineNames)
    (hquiet : a.TakesAll (a.runEvents (.ofList rules) o)) :
    ∃ outcome b, (run (.ofList rules) w points).drive a = (outcome, b) ∧
      ((∃ results, outcome = .ok results) ↔
        ∀ engine ∈ (Selection.ofList rules).engineNames, a.Accepts (.ofList rules) o engine) ∧
      (∀ results, outcome = .ok results →
        a.ResultsAre (.ofList rules) o results ∧
          ∀ engine e, results.byEngine.get? engine = some e →
            ∀ v ∈ e.violations, v.Sound a.host (.ofList rules) engine) ∧
      (∀ f, outcome = .error f → ∃ engine r,
        FirstBad (a.Accepts (.ofList rules) o) (Selection.ofList rules).engineNames engine ∧
          (a.performance (.ofList rules) o engine).report = .ok r ∧
          ¬ r.Acceptable a.host (.ofList rules) engine ∧
          f.ContractUnless (r.Untold a.host (.ofList rules) engine)) := by
  obtain ⟨outcome, b, hdrive, houtcome, -⟩ := run_comesTo hresolved hregistered hquiet
  refine ⟨outcome, b, hdrive, houtcome.returns, fun results hresults => ?_, fun f hf => ?_⟩
  · have hare := houtcome.results results hresults
    refine ⟨hare, fun engine e he => ?_⟩
    exact ((hare.entry engine e).mp he).2.violations_sound (Selection.filed_ofList rules)
  · obtain ⟨engine, -, -, r, hfirst, -, -, hrefusal⟩ := houtcome.refusal f hf
    exact ⟨engine, r, hfirst, hrefusal⟩

/-- The finding of the first engine is kept as a sound violation although the second engine fails. -/
theorem run_sound_equipped :
    ∃ results v, ((run (.ofList toolboxRules) oneFileWorkspace []).drive (equipped "/main.py")).1 =
        .ok results ∧
      results.violations = [v] ∧ v.Sound oneFile.host (.ofList toolboxRules) "probe" := by
  obtain ⟨outcome, b, hdrive, -, hok, -⟩ := @run_sound toolboxRules (equipped "/main.py")
    oneFileWorkspace [] ⟨oneFileWorkspace, none⟩ rfl (by decide) fun _ _ _ _ _ => rfl
  refine ⟨_, _, rfl, rfl, ?_⟩
  have hreturns := congrArg Prod.fst hdrive
  exact (hok _ hreturns.symm).2 "probe" ⟨"probe", .ok [_]⟩ rfl _ List.mem_cons_self

/-- A finding in the file `~a` with a zero byte is refused by the failure of `expandHome`, which is no breach
of the engine contract. -/
theorem run_refuses_untold :
    ((run (.ofList toolboxRules) oneFileWorkspace []).drive (equipped "~a\x00")).1 =
        .error Host.nullByte ∧
      Host.nullByte.kind ≠ .contract :=
  ⟨rfl, by decide⟩

end Analyzer

end Polyscan
