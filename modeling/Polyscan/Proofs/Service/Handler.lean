import Polyscan.Proofs.Service.Report
import Polyscan.Service.EventLoop

/-!
The handlers of requests, by their turns. `drive_handler` states that a handler does what `serve` does if
nothing runs beside. The handler of a request for a run waits for the lock, subscribes its listener, makes the
workspace and starts the tasks of engines; then come the turns of the run, and in the end the listener
unsubscribes, the lock is released and the request is answered.
-/
namespace Polyscan.Http

open Analyzer Service

variable {t : Timing} {r : Request} {q : RunRequest}

theorem run_eq (t : Timing) (q : RunRequest) :
    Service.run t q = (withRunLock (analyzing (listening (selectAndRun q)))).bind (recording t) := by
  show (withRunLock (analyzing (listening (selectAndRun q)))).bind _ = _
  refine congrArg _ (funext ?_)
  rintro ⟨⟨w, results⟩, events⟩
  rfl

theorem serve_eq_replying {α β : Type} {schema : List (String × Json) → Schema.Checked α}
    {work : α → Work Service β} {encode : β → Json} {x : α}
    (hroute : respond t r = handle r schema work encode) (hbody : parseBody schema r = .ok x) :
    serve t r = replying encode (work x) := by
  rw [serve, respond_of_body hroute hbody]
  rfl

theorem AsksRun.not_asksRules (h : AsksRun r q) (p : RulesRequest) : ¬ AsksRules r p := fun hrules =>
  nomatch h.route.symm.trans hrules.route

theorem AsksRules.serve_eq {p : RulesRequest} (h : AsksRules r p) (t : Timing) :
    serve t r = replying Selection.toJson (listRules p) :=
  serve_eq_replying (h.respond_eq t) h.body

theorem AsksRun.serve_eq (h : AsksRun r q) (t : Timing) :
    serve t r = answering t (withRunLock (analyzing (listening (selectAndRun q)))) := by
  rw [serve_eq_replying (h.respond_eq t) h.body, run_eq]
  rfl

/-! ## Handlers as tasks -/

theorem taskRequest?_eq_rules_iff {p : RulesRequest} : r.taskRequest? = some (.rules p) ↔ AsksRules r p := by
  unfold Request.taskRequest?
  constructor
  · intro h
    split at h
    · next hroute =>
      split at h
      · next hmethod =>
        cases hbody : parseBody Schema.rulesFields r with
        | error e => simp [hbody, Except.toOption] at h
        | ok p' =>
          rw [hbody] at h
          cases h
          exact ⟨hroute, hmethod, hbody⟩
      · cases h
    · split at h
      · cases hbody : parseBody Schema.runFields r <;> simp [hbody, Except.toOption] at h
      · cases h
    · cases h
  · intro h
    simp [h.route, h.method, h.body, Except.toOption]

theorem taskRequest?_eq_run_iff : r.taskRequest? = some (.run q) ↔ AsksRun r q := by
  unfold Request.taskRequest?
  constructor
  · intro h
    split at h
    · split at h
      · cases hbody : parseBody Schema.rulesFields r <;> simp [hbody, Except.toOption] at h
      · cases h
    · next hroute =>
      split at h
      · next hmethod =>
        cases hbody : parseBody Schema.runFields r with
        | error e => simp [hbody, Except.toOption] at h
        | ok q' =>
          rw [hbody] at h
          cases h
          exact ⟨hroute, hmethod, hbody⟩
      · cases h
    · cases h
  · intro h
    simp [h.route, h.method, h.body, Except.toOption]

/-- The outcome of asking all engines for their rules, if nothing runs beside. -/
def descriptions (w : Workspace) (a : Analyzer) : Except Fault (List (List Rule)) × Analyzer :=
  (Work.gather (a.roundLimit w + 1) (a.engineNames.map (describeEngine w))).drive a

theorem drive_select {choice : Option Workspace} {a b : Analyzer} {w : Workspace}
    (h : (workspaceOr choice).drive a = (.ok w, b)) (selectors : List String) :
    (select selectors choice).drive a = (selectListed selectors (descriptions w b).1, (descriptions w b).2) := by
  have hrules : (rulesIn w).drive b = ((descriptions w b).1.map List.flatten, (descriptions w b).2) :=
    Work.drive_map List.flatten _ b
  rw [select, allRules, Work.bind_assoc, Work.drive_bind, h]
  show ((rulesIn w).bind _).drive b = _
  rw [Work.drive_bind, hrules]
  rcases descriptions w b with ⟨_ | _, _⟩ <;> rfl

theorem drive_describing (w : Workspace) (next : Except Fault (List (List Rule)) → Work Service Response)
    (s : Service) :
    ((describing w next).bind Work.Branch.join).drive s =
      (next (descriptions w s.analyzer).1).drive { s with analyzer := (descriptions w s.analyzer).2 } := by
  have hgather : (Work.gather (s.analyzer.roundLimit w + 1)
      (s.analyzer.engineNames.map fun engine => analyzing (describeEngine w engine))).drive s =
        ((descriptions w s.analyzer).1, { s with analyzer := (descriptions w s.analyzer).2 }) := by
    rw [← Function.comp_def, ← List.map_map]
    exact Work.drive_gather_zoom (fun s : Service => s.analyzer) (fun a s => { s with analyzer := a })
      (fun _ _ => rfl) (fun _ _ _ => rfl) (fun _ => rfl) _ _ s
  show ((Work.gather _ _).attempt.bind next).drive s = _
  rw [Work.drive_bind, Work.drive_attempt, hgather]

theorem drive_replying {β : Type} (encode : β → Json) (w : Work Service β) (s : Service) :
    (replying encode w).drive s = (.ok (answerOf encode (w.drive s).1).writable, (w.drive s).2) := by
  rw [replying, Work.drive_bind, Work.drive_bind, Work.drive_attempt]
  rfl

/-- `rulesHandler` run alone does what `listRules` does. -/
theorem drive_rulesHandler (p : RulesRequest) (s : Service) :
    ((rulesHandler p).bind Work.Branch.join).drive s = (replying Selection.toJson (listRules p)).drive s := by
  rw [rulesHandler, Work.bind_assoc, Work.drive_bind, Work.drive_attempt, drive_analyzing, Work.drive_now,
    drive_replying]
  rcases hmeant : meant p.workspace s.analyzer with ⟨f | w, a⟩
  · rw [listRules_of_error hmeant]
    rfl
  · obtain ⟨start, choice, hchoice, hlist⟩ := listRules_drive hmeant
    show ((describing w _).bind _).drive _ = _
    rw [drive_describing, hlist, drive_select hchoice]
    rfl

/-- The rest of a request for a run depends on the work of the run only through its outcome. -/
theorem drive_concluding (t : Timing) (k : Nat) (w : Work Analyzer (Workspace × RunResults)) (s : Service) :
    (concluding t k w).drive s =
      (concluding t k (.done (w.drive s.analyzer).1)).drive { s with analyzer := (w.drive s.analyzer).2 } := by
  induction w generalizing s with
  | done r => rfl
  | get next ih => exact ih s.analyzer s
  | put a next ih => exact ih { s with analyzer := a }
  | wait ready next ih => exact ih s

/-- `runHandler` run alone does what `run` does. -/
theorem drive_runHandler (t : Timing) (q : RunRequest) (s : Service) :
    ((runHandler t q).bind Work.Branch.join).drive s =
      (answering t (withRunLock (analyzing (listening (selectAndRun q))))).drive s := by
  have hserve : (answering t (withRunLock (analyzing (listening (selectAndRun q))))).drive s =
      (concluding t s.analyzer.listeners (selectAndRun q)).drive
        { s with running := true, analyzer := s.analyzer.attended } := by
    rw [concluding, answering, answering, drive_replying, drive_replying, Work.drive_bind, Work.drive_bind,
      drive_alone, Work.drive_ensuring]
    rfl
  have henter : ((runHandler t q).bind Work.Branch.join).drive s =
      ((runEntered t q).bind Work.Branch.join).drive { s with running := true } := by
    rw [runHandler, Work.bind_assoc, Work.drive_bind, Work.drive_acquire]
  rw [hserve, henter, drive_concluding, runEntered]
  show (((analyzing (Work.now (createWorkspace q.workspace))).attempt.bind _).bind _).drive
    { s with running := true, analyzer := s.analyzer.attended } = _
  rw [Work.bind_assoc, Work.drive_bind, Work.drive_attempt, drive_analyzing, Work.drive_now]
  rcases hcreated : createWorkspace q.workspace s.analyzer.attended with ⟨f | w, a⟩
  · have hrun : (selectAndRun q).drive s.analyzer.attended = (.error f, a) := by
      rw [selectAndRun, Work.drive_then, Work.drive_now, hcreated]
    rw [hrun]
    show (((concluding t _ _).bind _).bind _).drive _ = _
    rw [Work.bind_assoc, Work.drive_bind]
    rfl
  · have hrun : (selectAndRun q).drive s.analyzer.attended =
        (runListed q w (descriptions w a).1).drive (descriptions w a).2 := by
      rw [selectAndRun, Work.drive_then, Work.drive_now, hcreated]
      show ((select q.selectors (some w)) >>= _).drive a = _
      rw [Work.drive_then, drive_select rfl]
      unfold runListed
      cases selectListed q.selectors (descriptions w a).1 <;> rfl
    rw [hrun]
    show ((describing w _).bind _).drive _ = _
    rw [drive_describing, drive_concluding]

theorem AsksRules.handler_eq {p : RulesRequest} (h : AsksRules r p) (t : Timing) :
    handler t r = rulesHandler p := by
  rw [handler, taskRequest?_eq_rules_iff.mpr h]

theorem AsksRun.handler_eq (h : AsksRun r q) (t : Timing) : handler t r = runHandler t q := by
  rw [handler, taskRequest?_eq_run_iff.mpr h]

/-- `handler` run alone does what `serve` does. -/
theorem drive_handler (t : Timing) (r : Request) (s : Service) :
    ((handler t r).bind Work.Branch.join).drive s = (serve t r).drive s := by
  unfold handler
  cases hwish : r.taskRequest? with
  | none =>
    simp only [Work.drive_bind]
    rcases (serve t r).drive s with ⟨_ | _, _⟩ <;> rfl
  | some wish =>
    cases wish with
    | rules p => rw [(taskRequest?_eq_rules_iff.mp hwish).serve_eq, ← drive_rulesHandler]
    | run q => rw [(taskRequest?_eq_run_iff.mp hwish).serve_eq, ← drive_runHandler]

/-! ## Requests that start no run -/

theorem emits_meant (paths : List String) (a : Analyzer) : Emits [] a (meant paths a).2 := by
  unfold meant
  split
  · exact emits_workspaceHere a
  · exact emits_createWorkspace paths a

/-- The tasks of `describeEngine` only emit events. -/
theorem abides_describing (w : Workspace) (engines : List String) :
    Work.Law.Abides.All emittingService
      (Work.positioned (engines.map fun engine => analyzing (describeEngine w engine))) := by
  refine Work.Law.Abides.positioned fun x hx => ?_
  obtain ⟨engine, -, rfl⟩ := List.mem_map.mp hx
  exact Work.Law.Abides.zoom _ _ (fun _ _ => rfl) _ _ (allowsListing_emitting.describeEngine w engine)

/-- A request that is neither for rules nor for a run is answered in its first turn. -/
theorem resume_serve_of_none (h : r.taskRequest? = none) (t : Timing) (s : Service) :
    ∃ answer, (serve t r).resume s = (.done (.ok answer), s) := by
  unfold serve respond
  split
  · exact ⟨_, rfl⟩
  · next route hroute =>
    split
    · exact ⟨_, rfl⟩
    · next hmethod =>
      rw [not_not] at hmethod
      cases route with
      | health => exact ⟨_, rfl⟩
      | rules =>
        cases hbody : parseBody Schema.rulesFields r with
        | error e =>
          simp only [handle, hbody]
          exact ⟨_, rfl⟩
        | ok p =>
          rw [taskRequest?_eq_rules_iff.mpr ⟨hroute, hmethod, hbody⟩] at h
          cases h
      | run =>
        cases hbody : parseBody Schema.runFields r with
        | error e =>
          simp only [handle, hbody]
          exact ⟨_, rfl⟩
        | ok q =>
          rw [taskRequest?_eq_run_iff.mpr ⟨hroute, hmethod, hbody⟩] at h
          cases h

/-- The first turn of a request that starts no run emits nothing. The request is answered then, or it waits
for the tasks of `describeEngine`. -/
theorem turn_handler_of_not_run (hnone : ∀ q, ¬ AsksRun r q) (t : Timing) (s : Service) :
    ∃ branch s', (handler t r).turn s = (.done (.ok branch), s') ∧ Emits [] s.analyzer s'.analyzer ∧
      s'.running = s.running ∧ ((∃ answer, branch = .stop answer) ∨
        ∃ p limit pieces, ∃ answers : Except Fault (List (List Rule)) → Response, AsksRules r p ∧
          Work.Law.Abides.All emittingService (Work.positioned pieces) ∧
          branch = .fork limit pieces fun listed => pure (answers listed)) := by
  unfold handler
  cases hwish : r.taskRequest? with
  | none =>
    obtain ⟨answer, hserve⟩ := resume_serve_of_none hwish t s
    refine ⟨.stop answer, s, Work.turn_of_resume_done ?_, .refl _, rfl, .inl ⟨answer, rfl⟩⟩
    show ((serve t r).bind fun answer => (pure (.stop answer) : Handler)).resume s = _
    rw [Work.resume_bind_pure, hserve]
    rfl
  | some wish =>
    cases wish with
    | run q => exact absurd (taskRequest?_eq_run_iff.mp hwish) (hnone q)
    | rules p =>
      have hemits := emits_meant p.workspace s.analyzer
      have hstart : (rulesHandler p).turn s =
          Work.resume (Work.bind (.done (.ok (meant p.workspace s.analyzer).1)) _)
            { s with analyzer := (meant p.workspace s.analyzer).2 } := rfl
      rcases hmeant : meant p.workspace s.analyzer with ⟨f | w, a⟩
      · rw [hmeant] at hemits hstart
        exact ⟨_, _, hstart, hemits, rfl, .inl ⟨_, rfl⟩⟩
      · rw [hmeant] at hemits hstart
        exact ⟨_, _, hstart, hemits, rfl, .inr
          ⟨p, _, _, _, taskRequest?_eq_rules_iff.mp hwish, abides_describing w a.engineNames, rfl⟩⟩

/-! ## Requests for runs -/

/-- The rest of a request for a run that waits for the lock. -/
def queued (t : Timing) (q : RunRequest) : Handler :=
  (Work.get fun s : Service => .put { s with running := true } (pure ())).bind fun _ => runEntered t q

theorem turn_runHandler (t : Timing) (q : RunRequest) (s : Service) :
    (runHandler t q).turn s =
      if s.running then (.wait (fun s => !s.running) (queued t q), s)
      else (runEntered t q).resume { s with running := true } := by
  show (Work.bind (if !s.running then _ else _) fun _ => runEntered t q).resume s = _
  cases s.running <;> rfl

theorem turn_queued_of_running {s : Service} (h : s.running = true) :
    (Work.wait (fun s => !s.running) (queued t q)).turn s = (.wait (fun s => !s.running) (queued t q), s) :=
  if_neg (by simp [h])

theorem turn_queued_of_idle {s : Service} (h : s.running = false) :
    (Work.wait (fun s => !s.running) (queued t q)).turn s =
      (runEntered t q).resume { s with running := true } :=
  if_pos (by simp [h])

/-- A turn of `concluding` begins with one of the run. -/
theorem resume_concluding (t : Timing) (k : Nat) (w : Work Analyzer (Workspace × RunResults)) (s : Service) :
    (concluding t k w).resume s =
      (concluding t k (w.resume s.analyzer).1).resume { s with analyzer := (w.resume s.analyzer).2 } := by
  induction w generalizing s with
  | done r => rfl
  | get next ih => exact ih s.analyzer s
  | put a next ih => exact ih { s with analyzer := a }
  | wait ready next ih => rfl

section

variable {k : Nat} {ready : Analyzer → Bool} {next : Work Analyzer (Workspace × RunResults)} {s : Service}

/-- The request waits where the run waits. -/
theorem turn_concluding_of_ready (h : ready s.analyzer = true) :
    (concluding t k (.wait ready next)).turn s = (concluding t k next).resume s :=
  if_pos h

theorem turn_concluding_of_unready (h : ready s.analyzer = false) :
    (concluding t k (.wait ready next)).turn s = (concluding t k (.wait ready next), s) :=
  if_neg (ne_true_of_eq_false h)

end

theorem resume_concluding_error (t : Timing) (k : Nat) (f : Fault) (s : Service) :
    (concluding t k (.done (.error f))).resume s =
      (.done (.ok (.ofFault f)), { s with running := false, analyzer := s.analyzer.dismiss Topic.all k }) :=
  congrArg (fun answer => (Work.done (.ok answer), _)) (writable_ofFault f)

theorem abides_runListed (q : RunRequest) (w : Workspace) (listed : Except Fault (List (List Rule))) :
    emitting.Abides (runListed q w listed) := by
  unfold runListed
  split
  · exact .throw _
  · exact (abides_run allowsRun_emitting _ w q.startPoints).bind fun _ => .pure _

/-- A request whose workspace cannot be made is over. -/
theorem resume_runEntered_of_error {s : Service} {f : Fault} {a : Analyzer}
    (h : createWorkspace q.workspace s.analyzer.attended = (.error f, a)) :
    (runEntered t q).resume s = (.done (.ok (.stop (.ofFault f))), { s with
      running := false
      analyzer := a.dismiss Topic.all s.analyzer.listeners }) := by
  show Work.resume (Work.bind (.done (.ok (createWorkspace q.workspace s.analyzer.attended).1)) _)
    { s with analyzer := (createWorkspace q.workspace s.analyzer.attended).2 } = _
  rw [h]
  show ((concluding t s.analyzer.listeners (.done (.error f))).bind
    fun answer => (pure (.stop answer) : Handler)).resume
    { s with analyzer := a } = _
  rw [Work.resume_bind_pure, resume_concluding_error]
  rfl

/-- In a new workspace the tasks of `describeEngine` are started. -/
theorem resume_runEntered_of_ok {s : Service} {w : Workspace} {a : Analyzer}
    (h : createWorkspace q.workspace s.analyzer.attended = (.ok w, a)) :
    ∃ limit, (runEntered t q).resume s = (.done (.ok (.fork limit
      (a.engineNames.map fun engine => analyzing (describeEngine w engine))
      fun listed => concluding t s.analyzer.listeners (runListed q w listed))), { s with analyzer := a }) := by
  refine ⟨a.roundLimit w + 1, ?_⟩
  show Work.resume (Work.bind (.done (.ok (createWorkspace q.workspace s.analyzer.attended).1)) _)
    { s with analyzer := (createWorkspace q.workspace s.analyzer.attended).2 } = _
  rw [h]
  rfl

/-- When the run is over the request is answered in the same turn. -/
theorem resume_concluding_done (t : Timing) (k : Nat) (r : Except Fault (Workspace × RunResults))
    (s : Service) :
    ∃ answer host, (concluding t k (.done r)).resume s =
        (.done (.ok answer), { s with
          running := false
          analyzer := { s.analyzer.dismiss Topic.all k with host } }) ∧
      ((∃ f, answer = .ofFault f) ∨ ∃ report : RunReport,
        answer = (Response.ok report.toJson).writable ∧ report.events = s.analyzer.heardBy k) := by
  cases r with
  | error f => exact ⟨_, _, resume_concluding_error t k f s, .inl ⟨f, rfl⟩⟩
  | ok x =>
    generalize hreport : RunReport.mk x.1 x.2 (s.analyzer.heardBy k)
      (.ofResults x.1.id x.2 t.elapsed) = report
    generalize hstop : ({ s with running := false, analyzer := s.analyzer.dismiss Topic.all k } : Service) = u
    -- only the audit entry is left to be written
    have hrest : (concluding t k (.done (.ok x))).resume s =
        (replying RunReport.toJson ((Work.done (record t.timestamp report.audit u).1).bind fun _ =>
          pure report)).resume (record t.timestamp report.audit u).2 := by
      rw [← hreport, ← hstop]
      rfl
    rw [hrest]
    rcases hrecord : record t.timestamp report.audit u with ⟨f | _, v⟩
    · obtain rfl := record_eq_error hrecord
      exact ⟨_, _, by rw [← hstop]; rfl, .inl ⟨f, writable_ofFault f⟩⟩
    · obtain ⟨host, -, -, rfl⟩ := record_eq_ok hrecord
      refine ⟨_, host, by rw [← hstop]; rfl, .inr ⟨report, rfl, ?_⟩⟩
      rw [← hreport]

/-- The readings of the clock that an answer gives with its events. -/
def Response.timestamps (r : Response) : List Nat :=
  match r.content with
  | .json v => (v.itemsOf "events").filterMap fun e =>
    match e.field? "timestamp" with
    | some (.int n) => some n.toNat
    | _ => none
  | .text _ => []

theorem timestamps_of_writable {report : RunReport} {answer : Response}
    (hanswer : answer = (Response.ok report.toJson).writable) (hstatus : answer.status = 200) :
    answer.timestamps = report.events.map Published.tick := by
  have hitems : (report.toJson.itemsOf "events") = report.events.map Published.toJson := rfl
  have hok : answer = .ok report.toJson := by
    rw [hanswer] at hstatus ⊢
    unfold Response.writable at hstatus ⊢
    dsimp only [Response.ok] at hstatus ⊢
    split at hstatus
    · next hfinite => rw [if_pos hfinite]
    · cases hstatus
  rw [hok]
  show (report.toJson.itemsOf "events").filterMap _ = _
  rw [hitems, List.filterMap_map, ← List.filterMap_eq_map]
  refine List.filterMap_congr fun p _ => ?_
  obtain ⟨tick, event⟩ := p
  cases event <;> rfl

end Polyscan.Http
