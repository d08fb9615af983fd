import Polyscan.Analyzer.Run
import Polyscan.Proofs.Finding.Refusal
import Polyscan.Proofs.Finding.Written
import Polyscan.Proofs.Selection

/-!
Acceptance of reports. A report is accepted if and only if its findings can be read and all of them are sound;
each finding then becomes a violation of the rule that the selection holds under its name, in the same order.
-/
namespace Polyscan

/-- The findings that a report holds. -/
def Reported.Reads : Reported → List (Finding Int) → Prop
  | .findings list, fs => list = fs
  | .data v, fs => FindingsWritten v fs

/-- The report can be read, and its findings are sound. -/
def Reported.Acceptable (h : Host) (selection : Selection) (engine : String) (r : Reported) : Prop :=
  ∃ fs, r.Reads fs ∧ ∀ f ∈ fs, f.Sound h selection engine

/-- The report can be read, but the first violation of the contract in it is in a file that cannot be looked
up. -/
def Reported.Untold (h : Host) (selection : Selection) (engine : String) (r : Reported) : Prop :=
  ∃ fs, r.Reads fs ∧ Finding.BatchUntold h selection engine fs

/-- The violation that a finding becomes. -/
def Violation.Tied (selection : Selection) (engine : String) (f : Finding Int) (v : Violation) : Prop :=
  ∃ rule, selection.find? engine f.rule = some rule ∧ v = .ofFinding rule f

/-- The results hold the violations that the findings become. -/
def EngineResults.Accepts (selection : Selection) (engine : String) (fs : List (Finding Int))
    (e : EngineResults) : Prop :=
  e.engine = engine ∧ ∃ vs, e.outcome = .ok vs ∧ List.Forall₂ (Violation.Tied selection engine) fs vs

section

variable {h : Host} {selection : Selection} {engine : String} {r : Reported} {fs : List (Finding Int)}

/-! ## Reading -/

theorem Analyzer.checkReported_eq_ok_iff : checkReported engine r = .ok fs ↔ r.Reads fs := by
  cases r with
  | findings list => simp [checkReported, Reported.Reads]
  | data v =>
    rw [Reported.Reads, ← Schema.findings_good_iff, ← Schema.orFault_eq_ok_iff "EngineRunResults"]
    unfold checkReported
    cases hv : (Schema.findings v).orFault "EngineRunResults" <;> simp [hv]

theorem Analyzer.checkReported_error {f : Fault} (hf : checkReported engine r = .error f) :
    f.kind = .contract := by
  cases r with
  | findings list => cases hf
  | data v =>
    unfold checkReported at hf
    cases hv : (Schema.findings v).orFault "EngineRunResults" with
    | ok list => simp [hv] at hf
    | error g =>
      simp only [hv, Except.error.injEq] at hf
      exact hf ▸ rfl

/-- A report holds one list of findings at most. -/
theorem Reported.Reads.unique {gs : List (Finding Int)} (hf : r.Reads fs) (hg : r.Reads gs) : fs = gs := by
  have hread := fun {l} => @Analyzer.checkReported_eq_ok_iff "" r l
  rw [← hread] at hf hg
  exact Except.ok.inj (hf.symm.trans hg)

/-! ## Tying findings to rules -/

theorem Selection.rule_eq_ok_iff {name : String} {rule : Rule} :
    selection.rule engine name = .ok rule ↔ selection.find? engine name = some rule := by
  unfold Selection.rule
  cases selection.find? engine name <;> simp

/-- The violation of a finding, if the selection has its rule. -/
def Violation.ofSelected (selection : Selection) (engine : String) (f : Finding Int) :
    Except Fault Violation := do
  pure (.ofFinding (← selection.rule engine f.rule) f)

theorem Violation.ofSelected_eq_ok_iff {f : Finding Int} {v : Violation} :
    Violation.ofSelected selection engine f = .ok v ↔ Violation.Tied selection engine f v := by
  unfold Violation.ofSelected Violation.Tied
  simp only [← Selection.rule_eq_ok_iff]
  cases selection.rule engine f.rule <;> simp [bind, Except.bind, pure, Except.pure, eq_comm]

theorem EngineResults.ofFindings_eq_ok_iff {e : EngineResults} :
    EngineResults.ofFindings selection engine fs = .ok e ↔ e.Accepts selection engine fs := by
  change (do pure (⟨engine, .ok (← fs.mapM (Violation.ofSelected selection engine))⟩ : EngineResults)) =
    Except.ok e ↔ _
  have htied : ∀ vs, List.Forall₂ (Violation.Tied selection engine) fs vs ↔
      fs.mapM (Violation.ofSelected selection engine) = .ok vs := by
    intro vs
    simp only [mapM_eq_ok_iff, Violation.ofSelected_eq_ok_iff]
  unfold EngineResults.Accepts
  simp only [htied]
  obtain ⟨name, outcome⟩ := e
  cases fs.mapM (Violation.ofSelected selection engine) <;>
    simp [bind, Except.bind, pure, Except.pure, eq_comm]

/-- Sound findings can all be tied to rules. -/
theorem EngineResults.ofFindings_isOk (hs : ∀ f ∈ fs, f.Sound h selection engine) :
    ∃ e, EngineResults.ofFindings selection engine fs = .ok e := by
  have hall : ∃ vs, List.Forall₂ (Violation.Tied selection engine) fs vs := by
    induction fs with
    | nil => exact ⟨[], .nil⟩
    | cons f rest ih =>
      obtain ⟨vs, hvs⟩ := ih fun g hg => hs g (List.mem_cons_of_mem _ hg)
      obtain ⟨rule, hrule⟩ := (hs f List.mem_cons_self).rule
      exact ⟨_ :: vs, .cons ⟨rule, hrule, rfl⟩ hvs⟩
  obtain ⟨vs, hvs⟩ := hall
  exact ⟨⟨engine, .ok vs⟩, EngineResults.ofFindings_eq_ok_iff.mpr ⟨rfl, vs, rfl, hvs⟩⟩

/-! ## Accepting -/

namespace Analyzer

theorem acceptReported_eq_ok_iff {e : EngineResults} :
    acceptReported h selection engine r = .ok e ↔
      ∃ fs, r.Reads fs ∧ (∀ f ∈ fs, f.Sound h selection engine) ∧ e.Accepts selection engine fs := by
  unfold acceptReported
  cases hread : checkReported engine r with
  | error f =>
    simp only [bind, Except.bind, reduceCtorEq, false_iff]
    intro hany
    obtain ⟨fs, hfs, -⟩ := hany
    rw [checkReported_eq_ok_iff.mpr hfs] at hread
    cases hread
  | ok fs =>
    have hreads := checkReported_eq_ok_iff.mp hread
    simp only [bind, Except.bind]
    cases hcheck : Finding.checkAll h selection engine fs with
    | error f =>
      simp only [reduceCtorEq, false_iff]
      intro haccepts
      obtain ⟨gs, hgs, hsound, -⟩ := haccepts
      rw [hgs.unique hreads] at hsound
      rw [Finding.checkAll_eq_ok_iff.mpr hsound] at hcheck
      cases hcheck
    | ok u =>
      rw [EngineResults.ofFindings_eq_ok_iff]
      constructor
      · exact fun he => ⟨fs, hreads, Finding.checkAll_eq_ok_iff.mp hcheck, he⟩
      · intro haccepts
        obtain ⟨gs, hgs, -, he⟩ := haccepts
        exact hgs.unique hreads ▸ he

/-- A refused report is not acceptable, and the failure is a breach of the contract unless the report is
`Untold`. -/
theorem acceptReported_error {f : Fault} (hf : acceptReported h selection engine r = .error f) :
    ¬ r.Acceptable h selection engine ∧ f.ContractUnless (r.Untold h selection engine) := by
  unfold acceptReported at hf
  cases hread : checkReported engine r with
  | error g =>
    simp only [hread, bind, Except.bind, Except.error.injEq] at hf
    have hnone : ∀ fs, ¬ r.Reads fs := by
      intro fs hfs
      rw [checkReported_eq_ok_iff.mpr hfs] at hread
      cases hread
    have hkind : f.kind = .contract := hf ▸ checkReported_error hread
    refine ⟨?_, .inr ⟨?_, hkind⟩⟩
    · intro hany
      obtain ⟨fs, hfs, -⟩ := hany
      exact hnone fs hfs
    · intro hany
      obtain ⟨fs, hfs, -⟩ := hany
      exact hnone fs hfs
  | ok fs =>
    have hreads := checkReported_eq_ok_iff.mp hread
    simp only [hread, bind, Except.bind] at hf
    cases hcheck : Finding.checkAll h selection engine fs with
    | error g =>
      simp only [hcheck, Except.error.injEq] at hf
      subst hf
      refine ⟨?_, (Finding.checkAll_contractUnless hcheck).congr ⟨fun hu => ⟨fs, hreads, hu⟩, ?_⟩⟩
      · intro haccepts
        obtain ⟨gs, hgs, hsound⟩ := haccepts
        rw [hgs.unique hreads] at hsound
        rw [Finding.checkAll_eq_ok_iff.mpr hsound] at hcheck
        cases hcheck
      · intro haccepts
        obtain ⟨gs, hgs, hu⟩ := haccepts
        exact hgs.unique hreads ▸ hu
    | ok u =>
      -- findings that pass the checks can all be tied to rules, so nothing is refused here
      obtain ⟨e, he⟩ := EngineResults.ofFindings_isOk (Finding.checkAll_eq_ok_iff.mp hcheck)
      simp [hcheck, he] at hf

/-- Accepted results are no failure, and carry the name of their engine. -/
theorem acceptReported_outcome {e : EngineResults} (he : acceptReported h selection engine r = .ok e) :
    e.engine = engine ∧ ∃ vs, e.outcome = .ok vs := by
  obtain ⟨fs, -, -, hengine, vs, hvs, -⟩ := acceptReported_eq_ok_iff.mp he
  exact ⟨hengine, vs, hvs⟩

end Analyzer

end

end Polyscan
