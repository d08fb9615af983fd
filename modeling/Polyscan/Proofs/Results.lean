import Mathlib.Algebra.BigOperators.Ring.Finset
import Polyscan.Proofs.OrderedMap
import Polyscan.Results

/-! `RunResults` with one entry for each engine lists them in the order of `add`. -/
namespace Polyscan

/-- A failed engine has no violations. -/
theorem EngineResults.violations_of_isFailure {r : EngineResults} (h : r.isFailure = true) :
    r.violations = [] := by
  obtain ⟨engine, outcome⟩ := r
  cases outcome with
  | error f => rfl
  | ok vs => cases h

namespace RunResults

theorem entries_foldl_add {r : RunResults} {l : List EngineResults}
    (hfresh : (r.engineNames ++ l.map EngineResults.engine).Nodup) :
    (l.foldl add r).byEngine.entries = r.byEngine.entries ++ l.map fun e => (e.engine, e) := by
  induction l generalizing r with
  | nil => simp
  | cons e rest ih =>
    have hnew : e.engine ∉ r.byEngine.keys := by
      intro hmem
      exact (List.nodup_append.mp hfresh).2.2 _ hmem _ (by simp) rfl
    have hentries : (r.add e).byEngine.entries = r.byEngine.entries ++ [(e.engine, e)] :=
      OrderedMap.entries_insert e hnew
    have hnames : (r.add e).engineNames = r.engineNames ++ [e.engine] := by
      simp [engineNames, OrderedMap.keys, hentries]
    rw [List.foldl_cons, ih (by rw [hnames]; simpa using hfresh), hentries]
    simp

variable {l : List EngineResults}

theorem entries_ofList (hl : (l.map EngineResults.engine).Nodup) :
    (ofList l).byEngine.entries = l.map fun e => (e.engine, e) :=
  entries_foldl_add (r := empty) (by simpa [engineNames, empty] using hl)

theorem engineNames_ofList (hl : (l.map EngineResults.engine).Nodup) :
    (ofList l).engineNames = l.map EngineResults.engine := by
  simp [engineNames, OrderedMap.keys, entries_ofList hl]

theorem toList_ofList (hl : (l.map EngineResults.engine).Nodup) : (ofList l).toList = l := by
  simp [toList, OrderedMap.values, entries_ofList hl, Function.comp_def]

/-- The entry of an engine is the one that was added under its name. -/
theorem get?_ofList_iff (hl : (l.map EngineResults.engine).Nodup) {engine : String}
    {e : EngineResults} :
    (ofList l).byEngine.get? engine = some e ↔ e ∈ l ∧ e.engine = engine := by
  rw [OrderedMap.get?_eq_some_iff, entries_ofList hl, List.mem_map]
  constructor
  · intro h
    obtain ⟨e', he', heq⟩ := h
    cases heq
    exact ⟨he', rfl⟩
  · intro h
    obtain ⟨he, rfl⟩ := h
    exact ⟨e, he, rfl⟩

theorem count_ofList (hl : (l.map EngineResults.engine).Nodup) :
    (ofList l).count = (l.map EngineResults.count).sum := by
  rw [count, toList_ofList hl, List.sum_eq_foldl]

theorem byEngine_ofList (hl : (l.map EngineResults.engine).Nodup) {α : Type} (f : EngineResults → α) :
    ((ofList l).byEngine.mapValues f).entries = l.map fun r => (r.engine, f r) := by
  show (ofList l).byEngine.entries.map _ = _
  rw [entries_ofList hl, List.map_map]
  rfl

theorem failedEngines_ofList (hl : (l.map EngineResults.engine).Nodup) :
    (ofList l).failedEngines = (l.filter EngineResults.isFailure).map EngineResults.engine := by
  simp [failedEngines, entries_ofList hl, List.filter_map, Function.comp_def]

end RunResults

end Polyscan
