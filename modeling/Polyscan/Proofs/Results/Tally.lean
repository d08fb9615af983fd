import Polyscan.Audit
import Polyscan.Proofs.Results

/-!
`RunResults` after any number of calls of `add`. There is one entry for each engine, at the place of its first
addition and with the results of its last one. The counts of violations, in all, by severity, by engine and in
the audit entry, agree with the list of violations.
-/
namespace Polyscan

/-! ## Counting violations -/

theorem Violation.sum_severities (vs : List Violation) :
    (Severity.all.map fun s => (vs.filter fun v => v.severity = s).length).sum = vs.length := by
  induction vs with
  | nil => rfl
  | cons v vs ih =>
    -- one of the five counts increases by one
    have hone : (Severity.all.map fun s => if v.severity = s then 1 else 0).sum = 1 := by
      cases v.severity <;> rfl
    have hcons : ∀ s, ((v :: vs).filter fun v => v.severity = s).length =
        (if v.severity = s then 1 else 0) + (vs.filter fun v => v.severity = s).length := by
      intro s
      by_cases hs : v.severity = s
      · simp [hs, Nat.add_comm]
      · simp [hs]
    simp only [hcons, List.sum_map_add, hone, ih, List.length_cons, Nat.add_comm]

namespace RunResults

theorem count_eq_length (r : RunResults) : r.count = r.violations.length := by
  unfold count violations
  rw [← List.sum_eq_foldl, List.length_flatMap]
  rfl

theorem countOf_eq_length (r : RunResults) (s : Severity) :
    r.countOf s = (r.violations.filter fun v => v.severity = s).length := by
  unfold countOf violations
  rw [← List.sum_eq_foldl, List.filter_flatMap, List.length_flatMap]
  rfl

/-! ## Additions -/

/-- The results that were added last for the engine. -/
def lastOf (l : List EngineResults) (engine : String) : Option EngineResults :=
  (l.filter fun e => e.engine = engine).getLast?

theorem lastOf_snoc (l : List EngineResults) (e : EngineResults) (engine : String) :
    lastOf (l ++ [e]) engine = if e.engine = engine then some e else lastOf l engine := by
  unfold lastOf
  rw [List.filter_append]
  split
  · next hsame => simp [hsame]
  · next hother => simp [hother]

/-- The results hold what was added last for each engine, in the order of the first additions. -/
structure Holds (l : List EngineResults) (r : RunResults) : Prop where
  engines : r.engineNames = (l.map EngineResults.engine).eraseDups
  entry : ∀ engine, r.byEngine.get? engine = lastOf l engine

/-- `add` replaces the entry of its engine and leaves the others unchanged. -/
theorem get?_add (r : RunResults) (e : EngineResults) (engine : String) :
    (r.add e).byEngine.get? engine = if e.engine = engine then some e else r.byEngine.get? engine :=
  OrderedMap.get?_insert r.byEngine e.engine engine e

/-- `add` appends a new engine and keeps the place of a known one. -/
theorem engineNames_add (r : RunResults) (e : EngineResults) :
    (r.add e).engineNames = if e.engine ∈ r.engineNames then r.engineNames else r.engineNames ++ [e.engine] :=
  OrderedMap.keys_insert r.byEngine e.engine e

theorem Holds.add {l : List EngineResults} {r : RunResults} (h : Holds l r) (e : EngineResults) :
    Holds (l ++ [e]) (r.add e) where
  engines := by
    rw [engineNames_add, h.engines, List.map_append, List.map_singleton, OrderedMap.eraseDups_snoc]
    simp only [List.mem_eraseDups]
  entry engine := by
    rw [get?_add, h.entry, lastOf_snoc]

theorem holds_ofList (l : List EngineResults) : Holds l (ofList l) := by
  induction l using List.reverseRecOn with
  | nil => exact ⟨rfl, fun _ => rfl⟩
  | append_singleton l e ih =>
    unfold ofList at ih ⊢
    rw [List.foldl_append]
    exact ih.add e

/-! ## Views -/

/-- All accessors of the results agree with the list of additions. -/
structure Tally (l : List EngineResults) (r : RunResults) : Prop extends Holds l r where
  listed : r.toList = r.engineNames.filterMap (lastOf l)
  places : ∀ e : EngineResults, (r.add e).engineNames =
    if e.engine ∈ r.engineNames then r.engineNames else r.engineNames ++ [e.engine]
  apart : ∀ (e : EngineResults) (engine : String), engine ≠ e.engine →
    (r.add e).byEngine.get? engine = r.byEngine.get? engine
  violations : r.violations = (r.engineNames.filterMap (lastOf l)).flatMap EngineResults.violations
  count : r.count = r.violations.length
  severity : ∀ s, r.countOf s = (r.violations.filter fun v => v.severity = s).length
  severities : (Severity.all.map r.countOf).sum = r.count
  counts : ((r.engineNames.filterMap (lastOf l)).map EngineResults.count).sum = r.count
  failed : r.failedEngines = r.engineNames.filter fun engine => (lastOf l engine).any EngineResults.isFailure
  blank : ∀ engine ∈ r.failedEngines, ∀ e, lastOf l engine = some e → e.violations = []

/-- The audit entry agrees with the results. -/
structure Audited (r : RunResults) (entry : AuditEntry) : Prop where
  engines : entry.engines = r.engineNames
  violations : entry.violations = r.violations.length
  keys : entry.byEngine.keys = r.engineNames
  byEngine : ∀ engine, entry.byEngine.get? engine =
    (r.byEngine.get? engine).map fun e => (e.violations.length : Int)
  sum : entry.byEngine.values.sum = entry.violations
  failed : entry.failed = r.failedEngines

theorem audited_ofResults (r : RunResults) (runId : String) (duration : Double) :
    r.Audited (.ofResults runId r duration) where
  engines := rfl
  violations := by
    rw [← count_eq_length]
    rfl
  keys := OrderedMap.keys_mapValues _ r.byEngine
  byEngine engine := OrderedMap.get?_mapValues _ r.byEngine engine
  sum := by
    show ((r.byEngine.mapValues fun e => (e.count : Int)).values).sum = (r.count : Int)
    rw [OrderedMap.values_mapValues, count, ← List.sum_eq_foldl, Nat.cast_list_sum, List.map_map]
    rfl
  failed := rfl

/-- After every sequence of `add`, with any number of additions for one engine, the accessors and the audit
entry agree with the list of additions. -/
theorem ofList_tallies (l : List EngineResults) :
    (ofList l).Tally l ∧ ∀ runId duration, (ofList l).Audited (.ofResults runId (ofList l) duration) := by
  have hholds := holds_ofList l
  have hentry := funext hholds.entry
  have hlisted : (ofList l).toList = (ofList l).engineNames.filterMap (lastOf l) := by
    rw [← hentry]
    exact OrderedMap.values_eq_filterMap _
  have hfailed : (ofList l).failedEngines =
      (ofList l).engineNames.filter fun engine => (lastOf l engine).any EngineResults.isFailure := by
    rw [← hentry]
    exact OrderedMap.map_fst_filter _ EngineResults.isFailure
  refine ⟨?_, audited_ofResults _⟩
  constructor
  case toHolds => exact hholds
  case listed => exact hlisted
  case places => exact engineNames_add _
  case apart =>
    intro e engine hne
    rw [get?_add, if_neg (Ne.symm hne)]
  case violations => rw [← hlisted, violations]
  case count => exact count_eq_length _
  case severity => exact countOf_eq_length _
  case severities =>
    rw [count_eq_length, ← Violation.sum_severities]
    exact congrArg List.sum (List.map_congr_left fun s _ => countOf_eq_length _ s)
  case counts => rw [← hlisted, count, List.sum_eq_foldl]
  case failed => exact hfailed
  case blank =>
    intro engine hmem e he
    rw [hfailed, List.mem_filter, he] at hmem
    exact EngineResults.violations_of_isFailure hmem.2

end RunResults

end Polyscan
