import Mathlib.Algebra.BigOperators.Ring.Finset
import Polyscan.Proofs.Catalogue.Agreement
import Polyscan.Proofs.Listening
import Polyscan.Proofs.Run.Options
import Polyscan.Proofs.Service.Asking

/-!
The response to a request for a run, and its effects. In every case the subscriptions are those from before
and the lock is released. With a report the audit trail has one entry more if the system writes it, and the
parts of the report agree; with a failure the machine is unchanged.
-/
namespace Polyscan

namespace Analyzer

variable {selection : Selection} {o : RunOptions} {a b : Analyzer}

/-! ## Results by engine -/

/-- The results of an engine carry its name. -/
theorem engine_of_resultsOf {engine : String} {r : EngineResults}
    (h : (resultsOf selection o engine).drive a = (.ok r, b)) : r.engine = engine := by
  unfold resultsOf at h
  obtain ⟨s, c, -, h⟩ := Work.drive_bind_eq_ok_iff.mp h
  obtain ⟨outcome, d, -, h⟩ := Work.drive_bind_eq_ok_iff.mp h
  cases outcome with
  | error f =>
    dsimp only at h
    rw [Work.drive_now, Work.effect_bind] at h
    split at h
    · cases h
      rfl
    · cases h
  | ok reported =>
    have haccept : (acceptReported d.host selection engine reported, d) = (.ok r, b) := by
      rw [← h]
      show _ = (liftM (acceptReported d.host selection engine reported) : Effect Analyzer EngineResults) d
      cases acceptReported d.host selection engine reported <;> rfl
    exact (acceptReported_outcome (Prod.mk.inj haccept).1).1

/-- `runAll` adds one entry for each engine. -/
theorem runAll_adds {engines : List String} {before after : RunResults}
    (h : (runAll selection o engines before).drive a = (.ok after, b)) :
    ∃ l : List EngineResults, l.map EngineResults.engine = engines ∧
      after = l.foldl RunResults.add before := by
  induction engines generalizing a before with
  | nil =>
    cases h
    exact ⟨[], rfl, rfl⟩
  | cons engine rest ih =>
    unfold runAll at h
    obtain ⟨-, c, -, h⟩ := Work.drive_bind_eq_ok_iff.mp h
    obtain ⟨r, d, hr, h⟩ := Work.drive_bind_eq_ok_iff.mp h
    obtain ⟨-, e, -, h⟩ := Work.drive_bind_eq_ok_iff.mp h
    obtain ⟨l, hl, rfl⟩ := ih h
    exact ⟨r :: l, by rw [List.map_cons, engine_of_resultsOf hr, hl], rfl⟩

/-- A run that returns has one entry for each engine of the selection, in order, under any listeners. -/
theorem run_adds {w : Workspace} {points : List String} {results : RunResults}
    (h : (run selection w points).drive a = (.ok results, b)) :
    ∃ l : List EngineResults, l.map EngineResults.engine = selection.engineNames ∧ results = .ofList l := by
  obtain ⟨o, c, -, h⟩ := Work.drive_bind_eq_ok_iff.mp h
  exact runAll_adds h

end Analyzer

/-! ## Totals -/

namespace Json

/-- The items of the list in a field, or none if there is no such list. -/
def itemsOf (name : String) (v : Json) : List Json :=
  match v.field? name with
  | some (.arr items) => items
  | _ => []

/-- The text in a field. -/
def textOf (name : String) (v : Json) : String :=
  match v.field? name with
  | some (.str s) => s
  | _ => ""

end Json

/-- The parts of a report on engines agree: the results, the count of violations, and the audit entry. -/
structure Tallies (names : List String) (body audit : Json) : Prop where
  engines : (body.itemsOf "results").map (Json.textOf "engine") = names
  count : body.field? "violation_count" =
    some (.nat ((body.itemsOf "results").flatMap (Json.itemsOf "violations")).length)
  found : audit.field? "violations_found" = body.field? "violation_count"
  perEngine : ∃ counts : List (String × Int),
    audit.field? "violations_per_engine" = some (.obj (counts.map fun c => (c.1, .int c.2))) ∧
      counts = ((body.itemsOf "results").map fun r =>
        (r.textOf "engine", ((r.itemsOf "violations").length : Int))) ∧
      body.field? "violation_count" = some (.int (counts.map Prod.snd).sum)
  audited : audit.field? "engines" = some (.strings names)
  failed : audit.field? "failed_engines" = some (.strings
    (((body.itemsOf "results").filter fun r => r.textOf "status" = "unexpected_error").map
      (Json.textOf "engine")))
  spared : ∀ r ∈ body.itemsOf "results", r.textOf "status" = "unexpected_error" →
    r.itemsOf "violations" = []

section

variable (r : EngineResults)

theorem itemsOf_violations : r.toJson.itemsOf "violations" = r.violations.map Violation.toJson := by
  obtain ⟨engine, outcome⟩ := r
  cases outcome <;> rfl

theorem textOf_status : decide (r.toJson.textOf "status" = "unexpected_error") = r.isFailure := by
  obtain ⟨engine, outcome⟩ := r
  cases outcome <;> rfl

end

/-- The report on distinct engines agrees. -/
theorem tallies_toJson {l : List EngineResults} (hl : (l.map EngineResults.engine).Nodup) (w : Workspace)
    (events : List (Published LogLevel)) (duration : Double) :
    Tallies (l.map EngineResults.engine)
      (RunReport.toJson
        { workspace := w, results := .ofList l, events, audit := .ofResults w.id (.ofList l) duration })
      (AuditEntry.ofResults w.id (.ofList l) duration).toJson := by
  generalize hreport : RunReport.mk w (.ofList l) events (.ofResults w.id (.ofList l) duration) = report
  have hresults : report.toJson.itemsOf "results" = l.map EngineResults.toJson := by
    subst hreport
    show (RunResults.toList (.ofList l)).map _ = _
    rw [RunResults.toList_ofList hl]
  have hcount : report.toJson.field? "violation_count" = some (.nat (l.map EngineResults.count).sum) := by
    subst hreport
    show some (Json.nat (RunResults.count (.ofList l))) = _
    rw [RunResults.count_ofList hl]
  have hlisted : ((l.map EngineResults.toJson).flatMap (Json.itemsOf "violations")).length =
      (l.map EngineResults.count).sum := by
    simp only [List.flatMap_map, itemsOf_violations, List.length_flatMap, List.length_map]
    rfl
  exact
    { engines := by
        rw [hresults, List.map_map]
        rfl
      count := by rw [hcount, hresults, hlisted]
      found := by
        rw [hcount, ← RunResults.count_ofList hl]
        rfl
      perEngine := by
        refine ⟨l.map fun r => (r.engine, (r.count : Int)), ?_, ?_, ?_⟩
        · show some (Json.obj (((RunResults.ofList l).byEngine.mapValues
            fun r => (r.count : Int)).mapValues Json.int).entries) = _
          show some (Json.obj (((RunResults.ofList l).byEngine.mapValues
            fun r => (r.count : Int)).entries.map _)) = _
          rw [RunResults.byEngine_ofList hl]
        · rw [hresults, List.map_map]
          refine List.map_congr_left fun r _ => ?_
          show _ = (r.toJson.textOf "engine", ((r.toJson.itemsOf "violations").length : Int))
          rw [itemsOf_violations, List.length_map]
          rfl
        · rw [hcount, List.map_map]
          show _ = some (Json.int (l.map fun r => (r.count : Int)).sum)
          rw [Json.nat, Nat.cast_list_sum, List.map_map]
          rfl
      audited := by
        show some (Json.strings (RunResults.engineNames (.ofList l))) = _
        rw [RunResults.engineNames_ofList hl]
      failed := by
        rw [hresults, List.filter_map, List.map_map]
        show some (Json.strings (RunResults.failedEngines (.ofList l))) = _
        rw [RunResults.failedEngines_ofList hl]
        have hstatus : (fun r : Json => decide (r.textOf "status" = "unexpected_error")) ∘
            EngineResults.toJson = EngineResults.isFailure := funext textOf_status
        rw [hstatus]
        rfl
      spared := by
        rw [hresults]
        intro v hv hstatus
        obtain ⟨r, -, rfl⟩ := List.mem_map.mp hv
        have hfailure : r.isFailure = true := by
          rw [← textOf_status]
          exact decide_eq_true hstatus
        rw [itemsOf_violations, EngineResults.violations_of_isFailure hfailure]
        rfl }

/-! ## One request -/

namespace Service

open Analyzer

/-- The service when a run is over and its listener is gone. -/
def afterwards (s : Service) (b : Analyzer) : Service :=
  { s with analyzer := b.dismiss Topic.all s.analyzer.listeners, running := false }

theorem drive_listening {α : Type} (w : Work Analyzer α) (a : Analyzer) :
    (listening w).drive a =
      ((w.drive a.attended).1.map fun x => (x, (w.drive a.attended).2.heardBy a.listeners),
        (w.drive a.attended).2.dismiss Topic.all a.listeners) := by
  show ((w.ensuring fun b => b.dismiss Topic.all a.listeners) >>= fun x =>
    Work.get fun b => pure (x, b.heardBy a.listeners)).drive a.attended = _
  rw [Work.drive_then, Work.drive_ensuring]
  rcases w.drive a.attended with ⟨_ | x, b⟩ <;> rfl

theorem drive_alone {α : Type} (w : Work Service α) (s : Service) :
    (withRunLock w).drive s =
      ((w.drive { s with running := true }).1,
        { (w.drive { s with running := true }).2 with running := false }) := by
  rw [withRunLock, Work.drive_then, Work.drive_acquire]
  exact Work.drive_ensuring _ w _

/-- Work under the lock beside a new listener has its own outcome, with the events that the listener received. -/
theorem drive_alone_listening {α : Type} (w : Work Analyzer α) (s : Service) :
    (withRunLock (analyzing (listening w))).drive s =
      ((w.drive s.analyzer.attended).1.map fun x =>
          (x, (w.drive s.analyzer.attended).2.heardBy s.analyzer.listeners),
        s.afterwards (w.drive s.analyzer.attended).2) := by
  rw [drive_alone, drive_analyzing, drive_listening]
  rfl

/-- The steps of a request for a run that returns results: `createWorkspace`, `select` and `run`. -/
structure Conducts (q : RunRequest) (a c d b : Analyzer) (w : Workspace) (selection : Selection)
    (results : RunResults) : Prop where
  created : createWorkspace q.workspace a = (.ok w, c)
  selected : (select q.selectors (some w)).drive c = (.ok selection, d)
  ran : (Analyzer.run selection w q.startPoints).drive d = (.ok results, b)

theorem selectAndRun_eq_ok_iff {q : RunRequest} {a b : Analyzer} {w : Workspace} {results : RunResults} :
    (selectAndRun q).drive a = (.ok (w, results), b) ↔
      ∃ c d selection, Conducts q a c d b w selection results := by
  constructor
  · intro h
    obtain ⟨w', c, hcreated, h⟩ := Work.drive_bind_eq_ok_iff.mp h
    obtain ⟨selection, d, hselected, h⟩ := Work.drive_bind_eq_ok_iff.mp h
    obtain ⟨results', e, hran, h⟩ := Work.drive_bind_eq_ok_iff.mp h
    cases h
    exact ⟨c, d, selection, hcreated, hselected, hran⟩
  · intro h
    obtain ⟨c, d, selection, hcreated, hselected, hran⟩ := h
    exact Work.drive_bind_eq_ok_iff.mpr ⟨w, c, hcreated, Work.drive_bind_eq_ok_iff.mpr
      ⟨selection, d, hselected, Work.drive_bind_eq_ok_iff.mpr ⟨results, b, hran, rfl⟩⟩⟩

variable {t : Timing} {q : RunRequest} {s s' : Service}

theorem record_eq_ok {time : String} {e : AuditEntry} {x : Unit} (h : record time e s = (.ok x, s')) :
    ∃ host note, s.trail.write s.analyzer.host time e = .ok (host, note) ∧
      s' = { s with analyzer := { s.analyzer with host } } := by
  unfold record at h
  split at h
  · next host note hwrite =>
    cases h
    exact ⟨host, note, hwrite, rfl⟩
  · cases h

theorem record_eq_error {time : String} {e : AuditEntry} {f : Fault} (h : record time e s = (.error f, s')) :
    s' = s := by
  unfold record at h
  split at h
  · cases h
  · cases h
    rfl

/-- A request for a run that returns a report. -/
theorem run_eq_ok {report : RunReport} (h : (run t q).drive s = (.ok report, s')) :
    ∃ b, (selectAndRun q).drive s.analyzer.attended = (.ok (report.workspace, report.results), b) ∧
      report.events = b.heardBy s.analyzer.listeners ∧
      report.audit = .ofResults report.workspace.id report.results t.elapsed ∧
      ∃ host note, s.trail.write b.host t.timestamp report.audit = .ok (host, note) ∧
        s' = { s.afterwards b with analyzer := { (s.afterwards b).analyzer with host } } := by
  obtain ⟨⟨⟨w, results⟩, events⟩, s₁, hran, h⟩ := Work.drive_bind_eq_ok_iff.mp h
  obtain ⟨_, s₂, hrecord, h⟩ := Work.drive_bind_eq_ok_iff.mp h
  cases h
  rw [drive_alone_listening] at hran
  obtain ⟨hresult, rfl⟩ := Prod.mk.inj hran
  rcases hwork : (selectAndRun q).drive s.analyzer.attended with ⟨f | x, b⟩
  · rw [hwork] at hresult
    cases hresult
  · rw [hwork] at hresult hrecord
    cases hresult
    exact ⟨b, rfl, rfl, rfl, record_eq_ok hrecord⟩

/-- A request for a run fails if its work fails. -/
theorem run_of_error {f : Fault} (h : ((selectAndRun q).drive s.analyzer.attended).1 = .error f) :
    ((run t q).drive s).1 = .error f := by
  refine Work.drive_then_of_error ?_ _
  rw [drive_alone_listening, h]
  rfl

/-- A request for a run that fails writes no audit entry. -/
theorem run_eq_error {f : Fault} (h : (run t q).drive s = (.error f, s')) :
    s' = s.afterwards ((selectAndRun q).drive s.analyzer.attended).2 := by
  have hran := drive_alone_listening (selectAndRun q) s
  change ((withRunLock (analyzing (listening (selectAndRun q)))).bind _).drive s = _ at h
  rw [Work.drive_bind, hran] at h
  rcases hwork : (selectAndRun q).drive s.analyzer.attended with ⟨g | x, b⟩
  · rw [hwork] at h
    cases h
    rfl
  · rw [hwork] at h
    obtain ⟨w, results⟩ := x
    change ((Work.now (record t.timestamp (.ofResults w.id results t.elapsed))).bind _).drive
      (s.afterwards b) = _ at h
    rw [Work.drive_bind, Work.drive_now] at h
    rcases hrecord : record t.timestamp (.ofResults w.id results t.elapsed) (s.afterwards b) with ⟨g | x, s₂⟩
    · rw [hrecord] at h
      cases h
      exact record_eq_error hrecord
    · rw [hrecord] at h
      cases h

end Service

namespace Service

open Analyzer

variable {q : RunRequest} {a b c d : Analyzer} {w : Workspace} {selection : Selection} {results : RunResults}

/-- The events from `createWorkspace` to the end of `run`. If no listener raises, they are the override events
of all engines, in the order of their descriptions, and then those of the run. -/
theorem Conducts.published (h : Conducts q a c d b w selection results) :
    ∃ es, Emits es a b ∧
      ((∀ e, a.Takes e) → ∃ o, RunOptions.resolve a.host w q.startPoints = .ok o ∧
        es = c.describingEvents w ++ d.runEvents selection o) := by
  by_cases hquiet : ∀ e, a.Takes e
  · have hcreated := emits_createWorkspace q.workspace a
    rw [h.created] at hcreated
    have hgiven : (workspaceOr (some w)).drive c = (.ok w, c) := rfl
    obtain ⟨outcome, d', hselected, hasked, -⟩ := select_cases q.selectors hgiven
    obtain ⟨rfl, rfl⟩ := Prod.mk.inj (h.selected.symm.trans hselected)
    have hbefore := hcreated.trans hasked.emits
    have hran := h.ran
    rw [run_drive] at hran
    split at hran
    · cases hran
    · next o hresolved =>
      obtain ⟨outcome, b', hrun, -, hcourse⟩ := run_comesTo hresolved
        (by rw [hasked.names]; exact registered_of_select (congrArg Prod.fst h.selected))
        (fun e _ => hbefore.takes (hquiet e))
      rw [h.ran] at hrun
      cases hrun
      refine ⟨_, hbefore.trans (hcourse.emits fun e _ => hbefore.takes (hquiet e)), fun _ => ⟨o, ?_, rfl⟩⟩
      rw [← hbefore.host]
      exact hresolved
  · obtain ⟨es, hes⟩ := (abides_selectAndRun q).drive a
    rw [selectAndRun_eq_ok_iff.mpr ⟨c, d, selection, h⟩] at hes
    exact ⟨es, hes, fun hall => absurd hall hquiet⟩

/-- The report says what was done for the request between two states of the service, in parts that agree, and
its audit entry is written, unless the system refused that. -/
structure Reports (t : Timing) (q : RunRequest) (s s' : Service) (selection : Selection)
    (es : List (Event LogLevel)) (report : RunReport) : Prop where
  conducted : ∃ c d b, Conducts q s.analyzer.attended c d b report.workspace selection report.results ∧
    Emits es s.analyzer.attended b ∧
    ((∀ e, s.analyzer.Takes e) → ∃ o,
      RunOptions.resolve s.analyzer.host report.workspace q.startPoints = .ok o ∧
        es = c.describingEvents report.workspace ++ d.runEvents selection o)
  /-- The response has every emitted event, if no listener raises on any of them. -/
  events : (∀ p ∈ stamped s.analyzer.clock es, s.analyzer.TakesAt p) →
    report.toJson.field? "events" = some (.arr ((stamped s.analyzer.clock es).map Published.toJson))
  /-- An event on which a listener raises is not delivered to the listener of the request, which subscribed
  last. -/
  delivered : report.toJson.field? "events" = some (.arr
    (((stamped s.analyzer.clock es).filter fun p => (s.analyzer.refusalOf p).isNone).map Published.toJson))
  audit : report.toJson.field? "audit" = some report.audit.toJson
  tallies : Tallies selection.engineNames report.toJson report.audit.toJson
  recorded :
    s.trail.Gains s.analyzer.host s'.analyzer.host (report.audit.record t.timestamp).write ∨
      s'.analyzer.host = s.analyzer.host ∧ ∃ f, s.analyzer.host.append s.trail.path
        (Text.encode (String.ofList ((report.audit.record t.timestamp).write ++ ['\n']))) = .error f

variable {t : Timing} {s s' : Service}

theorem bus_over (hnumbered : s.analyzer.Numbered) (h : emitting.keeps s.analyzer.attended b) :
    (s.afterwards b).analyzer.bus = s.analyzer.bus := by
  obtain ⟨es, hes⟩ := h
  exact (hnumbered.attends.of_emits hes).dismiss

theorem reports_of_run (hnumbered : s.analyzer.Numbered) {report : RunReport}
    (h : (run t q).drive s = (.ok report, s')) :
    ∃ selection es, Reports t q s s' selection es report := by
  obtain ⟨b, hwork, hevents, haudit, host, note, hwrite, rfl⟩ := run_eq_ok h
  obtain ⟨c, d, selection, hconducts⟩ := selectAndRun_eq_ok_iff.mp hwork
  obtain ⟨es, hemits, hquiet⟩ := hconducts.published
  obtain ⟨l, hl, hresults⟩ := run_adds hconducts.ran
  have hhost : b.host = s.analyzer.host := hemits.host
  have hdelivered : report.events =
      (stamped s.analyzer.clock es).filter fun p => (s.analyzer.refusalOf p).isNone := by
    rw [hevents, hnumbered.attends.heardBy hemits, hnumbered.heardBy_attended, List.nil_append]
    simp only [hnumbered.refusalOf_attended]
    rfl
  refine ⟨selection, es, ⟨c, d, b, hconducts, hemits, fun hall => ?_⟩, fun hall => ?_, ?_, rfl, ?_, ?_⟩
  · refine hquiet fun e tick => ?_
    rw [← refusalOf_eq_none_iff, hnumbered.refusalOf_attended, refusalOf_eq_none_iff]
    exact hall e tick
  · show some (Json.arr (report.events.map Published.toJson)) = _
    have haccepted : ∀ p ∈ stamped s.analyzer.clock es, (s.analyzer.refusalOf p).isNone = true := by
      intro p hp
      rw [refusalOf_eq_none_iff.mpr (hall p hp)]
      rfl
    rw [hdelivered, List.filter_eq_self.mpr haccepted]
  · show some (Json.arr (report.events.map Published.toJson)) = _
    rw [hdelivered]
  · have hnodup : (l.map EngineResults.engine).Nodup := hl ▸ selection.groups.keys_nodup
    have htallies := tallies_toJson hnodup report.workspace report.events t.elapsed
    rw [hl, ← hresults, ← haudit] at htallies
    exact htallies
  · rw [hhost] at hwrite
    obtain ⟨-, ⟨-, happend⟩ | ⟨-, hsame, hrefused⟩⟩ := AuditTrail.write_cases hwrite
    · exact .inl (AuditTrail.gains_of_append (Json.isPlain_of_mem_write _) happend)
    · exact .inr ⟨hsame, hrefused⟩

end Service

namespace Http

open Analyzer

theorem status_ofFault_ne (f : Fault) : (Response.ofFault f).status ≠ 200 := by
  unfold Response.ofFault
  split <;> simp [Response.refusal, Response.crash]

variable {t : Timing} {r : Request} {q : RunRequest} {s s' : Service}

theorem AsksRun.respond_ok (hasks : AsksRun r q) {report : RunReport}
    (h : (Service.run t q).drive s = (.ok report, s')) :
    (respond t r).drive s = (.ok (.ok report.toJson), s') := by
  rw [respond_drive (hasks.respond_eq t) hasks.body, h]
  rfl

theorem AsksRun.respond_error (hasks : AsksRun r q) {f : Fault}
    (h : (Service.run t q).drive s = (.error f, s')) :
    (respond t r).drive s = (.ok (.ofFault f), s') := by
  rw [respond_drive (hasks.respond_eq t) hasks.body, h]
  rfl

/-- `respond` to a request for a run, under any listeners. It always answers; then the subscriptions are those
from before and the lock is released. With any other status than 200 the response is that of a failure, and
the machine is unchanged. With status 200 it is a report whose parts agree: it lists the engines of the
selection in order, all counts of violations are equal, the failed engines are those that are listed as failed
and have no violations, and the events are those emitted from `createWorkspace` to the end of `run`, each once
and in order, if no listener raises on one of them. The audit entry is appended to the file, or the system
refused to write it. -/
theorem respond_accounts (hasks : AsksRun r q) (hnumbered : s.analyzer.Numbered) :
    ∃ answer s', (respond t r).drive s = (.ok answer, s') ∧
      s'.analyzer.bus = s.analyzer.bus ∧ s'.running = false ∧
      (answer.status ≠ 200 → s'.analyzer.host = s.analyzer.host ∧ ∃ f, answer = .ofFault f) ∧
      (answer.status = 200 → ∃ report selection es, (Service.run t q).drive s = (.ok report, s') ∧
        answer = .ok report.toJson ∧ Service.Reports t q s s' selection es report) := by
  have hemits := (Service.abides_selectAndRun q).drive s.analyzer.attended
  rcases h : (Service.run t q).drive s with ⟨f | report, s'⟩
  · obtain rfl := Service.run_eq_error h
    refine ⟨_, _, hasks.respond_error h, Service.bus_over hnumbered hemits, rfl, fun _ => ⟨?_, f, rfl⟩,
      fun hstatus => absurd hstatus (status_ofFault_ne f)⟩
    obtain ⟨es, hes⟩ := hemits
    exact hes.host
  · obtain ⟨selection, es, hreports⟩ := Service.reports_of_run hnumbered h
    obtain ⟨b, hwork, -, -, host, note, -, rfl⟩ := Service.run_eq_ok h
    rw [hwork] at hemits
    exact ⟨_, _, hasks.respond_ok h, Service.bus_over hnumbered hemits, rfl,
      fun hstatus => absurd rfl hstatus, fun _ => ⟨report, selection, es, rfl, rfl, hreports⟩⟩

/-- An engine that describes the rule `Tab`, with the report of its run. -/
def tabSlot (name : String) (report : Except Fault Reported) : Slot where
  engine := .external
    { name := .ok name
      describe := fun _ => { outcome := .ok (.arr [tabData]) }
      run := fun _ _ => { report } }
  config := []

/-- A tab at the beginning of the one file. -/
def oneTab : Finding Int :=
  { rule := "Tab", message := "A tab.", primaryIndex := 0, resourceUrls := [],
    locations := [{ file := "/main.py", startLine := 1, startColumn := 1 }] }

/-- A service with an engine that finds something and one that raises. -/
def twoEngineService : Service where
  analyzer :=
    { oneFile with
      slots := .ofList [("probe", tabSlot "probe" (.ok (.findings [oneTab]))),
        ("broken", tabSlot "broken" (.error (.raised .runtime "Out of order.")))] }
  trail := ⟨"/audit.jsonl"⟩

def tabRun : RunRequest := { selectors := ["Tab"], workspace := ["/main.py"] }

def tabRules : RulesRequest := { selectors := ["Tab"], workspace := ["/main.py"] }

def sampleTiming : Timing := ⟨.ofRatio false 3 2, "12:00"⟩

/-- One engine finds one tab, the other one raises, and there are ten events. -/
theorem respond_accounts_twoEngines :
    ∃ report selection es s',
      (respond sampleTiming (.forRun tabRun)).drive twoEngineService = (.ok (.ok report.toJson), s') ∧
      Service.Reports sampleTiming tabRun twoEngineService s' selection es report ∧
      report.results.count = 1 ∧ report.audit.failed = ["broken"] ∧ report.events.length = 10 := by
  have hnumbered : twoEngineService.analyzer.Numbered := ⟨fun _ => (nomatch ·), fun _ => (nomatch ·)⟩
  have hasks : AsksRun (.forRun tabRun) tabRun := asksRun_forRun (List.cons_ne_nil _ _)
  obtain ⟨answer, s', hdrive, -, -, -, hreports⟩ := respond_accounts (t := sampleTiming) hasks hnumbered
  have hcounts : (((Service.run sampleTiming tabRun).drive twoEngineService).1.map fun report =>
      (report.results.count, report.audit.failed, report.events.length)).toOption =
        some (1, ["broken"], 10) := by decide +kernel
  rcases hrun : (Service.run sampleTiming tabRun).drive twoEngineService with ⟨f | report, s''⟩
  · rw [hrun] at hcounts
    cases hcounts
  · rw [hrun] at hcounts
    obtain ⟨hanswer, rfl⟩ := Prod.mk.inj (hdrive.symm.trans (hasks.respond_ok hrun))
    cases Except.ok.inj hanswer
    obtain ⟨report', selection, es, hrun', -, hreports⟩ := hreports rfl
    cases hrun.symm.trans hrun'
    refine ⟨report, selection, es, s', hdrive, hreports, ?_⟩
    simpa [Except.map, Except.toOption] using hcounts

/-- A service with a listener that raises on log messages of engines, and an audit file that ends in an
unterminated line. -/
def raisingListenerService : Service where
  analyzer := (Analyzer.listen
    { host := ⟨.folder [("main.py", .file (.bytes [])), ("audit.jsonl", .file (.bytes [123, 125]))], [],
        "/home/user", []⟩
      slots := .ofList [("probe", { tabSlot "probe" (.ok (.findings [])) with
        engine := .external
          { name := .ok "probe"
            describe := fun _ => { outcome := .ok (.arr [tabData]) }
            run := fun _ _ =>
              { messages := [.ok (.log .info "Looking for tabs.")], report := .ok (.findings []) } }
        logForwards := 1 })] }
    [.engineLog] fun _ => some (.raised .listener "Occupied.")).2
  trail := ⟨"/audit.jsonl"⟩

/-- The number of lines of the audit file that are not empty. -/
def auditLines (s : Service) : Option Nat :=
  (s.analyzer.host.readBytes s.trail.path).toOption.map fun data =>
    ((data.splitOn 10).filter fun line => ¬ line.isEmpty).length

/-- The response has status 200 but not the event at reading 3, on which a listener raised. The entry is
appended to the unterminated line, so the audit file has no more lines than before. -/
theorem respond_omits_refused :
    ∃ (report : RunReport) (s' : Service),
      (respond sampleTiming (.forRun tabRun)).drive raisingListenerService = (.ok (.ok report.toJson), s') ∧
      (s'.analyzer.heardBy 0).map Published.tick = [3] ∧
      report.events.map Published.tick = [0, 1, 2, 4, 5, 6] ∧
      auditLines raisingListenerService = some 1 ∧ auditLines s' = some 1 := by
  have hasks : AsksRun (.forRun tabRun) tabRun := asksRun_forRun (List.cons_ne_nil _ _)
  have hbefore : auditLines raisingListenerService = some 1 := by decide +kernel
  have hafter : auditLines ((Service.run sampleTiming tabRun).drive raisingListenerService).2 = some 1 := by
    decide +kernel
  have hheard : (((Service.run sampleTiming tabRun).drive raisingListenerService).2.analyzer.heardBy 0).map
      Published.tick = [3] := by decide +kernel
  have hevents : (((Service.run sampleTiming tabRun).drive raisingListenerService).1.map fun report =>
      report.events.map Published.tick).toOption = some [0, 1, 2, 4, 5, 6] := by decide +kernel
  rcases hrun : (Service.run sampleTiming tabRun).drive raisingListenerService with ⟨f | report, s'⟩
  · rw [hrun] at hevents
    cases hevents
  · rw [hrun] at hevents hheard hafter
    exact ⟨report, s', hasks.respond_ok hrun, hheard, Option.some.inj hevents, hbefore, hafter⟩

end Http

end Polyscan
