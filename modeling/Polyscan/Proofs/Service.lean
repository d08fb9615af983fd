import Polyscan.Proofs.Catalogue.Blame
import Polyscan.Service.Http

/-!
Requests when rules cannot be listed. They are answered with the failure of the selection, a breach of the
contract that names an engine; only an answer of an engine that cannot be iterated ends them with an
unexpected failure.
-/
namespace Polyscan

namespace Work

variable {σ τ α β : Type}

theorem drive_then (w : Work σ α) (f : α → Work σ β) (s : σ) :
    (w >>= f).drive s =
      match w.drive s with
      | (.ok a, s') => (f a).drive s'
      | (.error e, s') => (.error e, s') :=
  drive_bind w f s

/-- A failure of the first step is the failure of the whole. -/
theorem drive_then_of_error {w : Work σ α} {s : σ} {e : Fault} (h : (w.drive s).1 = .error e)
    (f : α → Work σ β) : ((w >>= f).drive s).1 = .error e := by
  rw [drive_then]
  rcases hw : w.drive s with ⟨r, s'⟩
  rw [hw] at h
  cases h
  rfl

end Work

namespace Service

theorem drive_analyzing {α : Type} (w : Work Analyzer α) (s : Service) :
    (analyzing w).drive s = ((w.drive s.analyzer).1, { s with analyzer := (w.drive s.analyzer).2 }) :=
  Work.drive_zoom (fun s : Service => s.analyzer) (fun a s => { s with analyzer := a }) (fun _ _ => rfl)
    (fun _ _ _ => rfl) (fun _ => rfl) w s

/-- `listRules` selects rules in the workspace of the request. -/
theorem listRules_drive {s : Service} {q : RulesRequest} {w : Workspace} {a : Analyzer}
    (hmeant : meant q.workspace s.analyzer = (.ok w, a)) :
    ∃ start choice, (Analyzer.workspaceOr choice).drive start = (.ok w, a) ∧
      (listRules q).drive s = (((Analyzer.select q.selectors choice).drive start).1,
        { s with analyzer := ((Analyzer.select q.selectors choice).drive start).2 }) := by
  unfold meant at hmeant
  rw [listRules, drive_analyzing]
  split at hmeant
  · next hempty =>
    refine ⟨s.analyzer, none, hmeant, ?_⟩
    simp only [if_pos hempty]
    rfl
  · next hpaths =>
    refine ⟨a, some w, rfl, ?_⟩
    simp only [if_neg hpaths, Work.drive_then, Work.drive_map, Work.drive_now, hmeant]
    rfl

/-- `listRules` fails if the workspace of the request cannot be made. -/
theorem listRules_of_error {s : Service} {q : RulesRequest} {f : Fault} {a : Analyzer}
    (hmeant : meant q.workspace s.analyzer = (.error f, a)) :
    (listRules q).drive s = (.error f, { s with analyzer := a }) := by
  unfold meant at hmeant
  rw [listRules, drive_analyzing]
  split at hmeant
  · next hempty =>
    have hhere : (Analyzer.workspaceOr none).drive s.analyzer = (.error f, a) := hmeant
    have hselect : (Analyzer.select q.selectors none).drive s.analyzer = (.error f, a) := by
      rw [Analyzer.select, Analyzer.allRules, Work.bind_assoc, Work.drive_bind, hhere]
    simp only [if_pos hempty, Work.drive_then, Work.drive_pure, hselect]
  · next hpaths =>
    simp only [if_neg hpaths, Work.drive_then, Work.drive_map, Work.drive_now, hmeant]
    rfl

/-- A new listener does not affect `createWorkspace`. -/
theorem createWorkspace_listen {a b : Analyzer} {paths : List String} {w : Workspace}
    (h : Analyzer.createWorkspace paths a = (.ok w, b)) (topics : List Topic) :
    Analyzer.createWorkspace paths (a.listen topics fun _ => none).2 =
      (.ok w, (b.listen topics fun _ => none).2) := by
  unfold Analyzer.createWorkspace at h ⊢
  simp only [Analyzer.listen] at h ⊢
  cases hinputs : Workspace.absoluteInputs a.host [] paths with
  | error f =>
    rw [hinputs] at h
    cases h
  | ok inputs =>
    rw [hinputs] at h
    cases h
    rfl

/-- `run` fails if its selection fails. -/
theorem run_of_select_error {t : Timing} {s : Service} {q : RunRequest} {w : Workspace} {a : Analyzer}
    {f : Fault} (hcreated : Analyzer.createWorkspace q.workspace s.analyzer = (.ok w, a))
    (hselect : ((Analyzer.select q.selectors (some w)).drive (a.listen Topic.all fun _ => none).2).1 =
      .error f) : ((run t q).drive s).1 = .error f := by
  have hwork : ((selectAndRun q).drive (s.analyzer.listen Topic.all fun _ => none).2).1 = .error f := by
    rw [selectAndRun, Work.drive_then, Work.drive_now, createWorkspace_listen hcreated]
    exact Work.drive_then_of_error hselect _
  have hlistening : ((listening (selectAndRun q)).drive s.analyzer).1 = .error f := by
    rw [listening, Work.drive_then]
    refine Work.drive_then_of_error ?_ _
    rw [Work.drive_ensuring]
    exact hwork
  -- neither the steps before the selection nor the release of the lock hide its failure
  refine Work.drive_then_of_error ?_ _
  rw [withRunLock, Work.drive_then, Work.drive_acquire]
  simp only [Work.drive_ensuring, drive_analyzing]
  exact hlistening

end Service

namespace Http

open Analyzer

theorem writable_ofFault (f : Fault) : (Response.ofFault f).writable = .ofFault f := by
  unfold Response.ofFault
  split <;> rfl

section Handling

variable {α β : Type} {t : Timing} {r : Request} {schema : List (String × Json) → Schema.Checked α}
variable {work : α → Work Service β} {encode : β → Json} {x : α} {s : Service}

/-- The response is that to the outcome of the work for the parsed body. -/
theorem respond_of_body (hroute : respond t r = handle r schema work encode)
    (hbody : parseBody schema r = .ok x) :
    respond t r = (work x).attempt.bind fun y => pure (answerOf encode y) := by
  rw [hroute, handle, hbody]

theorem respond_drive (hroute : respond t r = handle r schema work encode)
    (hbody : parseBody schema r = .ok x) (s : Service) :
    (respond t r).drive s = (.ok (answerOf encode ((work x).drive s).1), ((work x).drive s).2) := by
  rw [respond_of_body hroute hbody, Work.drive_bind, Work.drive_attempt]
  rfl

theorem serve_drive (t : Timing) (r : Request) (s : Service) :
    (serve t r).drive s = (((respond t r).drive s).1.map Response.writable, ((respond t r).drive s).2) := by
  rw [serve, Work.drive_bind]
  rcases (respond t r).drive s with ⟨_ | _, _⟩ <;> rfl

/-- The response to a failure of the work for the parsed body. -/
theorem serve_of_error (hroute : respond t r = handle r schema work encode)
    (hbody : parseBody schema r = .ok x) {f : Fault} (hwork : ((work x).drive s).1 = .error f) :
    ((serve t r).drive s).1 = .ok (.ofFault f) := by
  rw [serve_drive, respond_drive hroute hbody, hwork]
  exact congrArg Except.ok (writable_ofFault f)

/-- The response to a result of the work for the parsed body. -/
theorem serve_of_ok (hroute : respond t r = handle r schema work encode)
    (hbody : parseBody schema r = .ok x) {y : β} (hwork : ((work x).drive s).1 = .ok y) :
    ((serve t r).drive s).1 = .ok (Response.ok (encode y)).writable := by
  rw [serve_drive, respond_drive hroute hbody, hwork]
  rfl

end Handling

/-- The request is one for rules. -/
structure AsksRules (r : Request) (q : RulesRequest) : Prop where
  route : Route.ofPath? r.path = some .rules
  method : r.method = Route.rules.method
  body : parseBody Schema.rulesFields r = .ok q

/-- The request is one for a run. -/
structure AsksRun (r : Request) (q : RunRequest) : Prop where
  route : Route.ofPath? r.path = some .run
  method : r.method = Route.run.method
  body : parseBody Schema.runFields r = .ok q

theorem AsksRules.respond_eq {r : Request} {q : RulesRequest} (h : AsksRules r q) (t : Timing) :
    respond t r = handle r Schema.rulesFields Service.listRules Selection.toJson := by
  simp [respond, h.route, h.method]

theorem AsksRun.respond_eq {r : Request} {q : RunRequest} (h : AsksRun r q) (t : Timing) :
    respond t r = handle r Schema.runFields (Service.run t) RunReport.toJson := by
  simp [respond, h.route, h.method]

/-- The response when rules cannot be listed: status 502 with a breach of the contract that names an engine,
or status 500 if the answer of an engine cannot be iterated. -/
inductive Refuses (a : Analyzer) (w : Workspace) : Response → Prop
  | accused {engine : String} {f : Fault} (hengine : engine ∈ a.engineNames) (h : f.Accuses engine) :
      Refuses a w (.refusal 502 f.text)
  | atom {engine : String} {v : Json} (hengine : engine ∈ a.engineNames)
      (hanswer : (a.answer w engine).outcome = .ok (.data v)) (hatom : v.IsAtom) : Refuses a w .crash

theorem refuses_ofFault {a : Analyzer} {w : Workspace} {f : Fault} (h : a.Denied w f) :
    Refuses a w (.ofFault f) := by
  cases h with
  | accused hengine h =>
    rw [Response.ofFault, h.1]
    exact .accused hengine h
  | atom hengine hanswer hatom => exact .atom hengine hanswer hatom

/-- Descriptions of rules are validated, whatever JSON value an engine answers with. A failure of `allRules`
or `select` is a breach of the contract that names an engine, unless an engine answered with a value that
cannot be iterated (`Denied`). `serve` responds to requests for rules and for runs with that failure. -/
theorem descriptions_blame {a : Analyzer} {w : Workspace} (h : a.Cooperates w) :
    (∀ start choice, (workspaceOr choice).drive start = (.ok w, a) →
      (∀ f, ((allRules choice).drive start).1 = .error f → a.Denied w f) ∧
      ∀ selectors f, ((select selectors choice).drive start).1 = .error f → a.Denied w f) ∧
    (∀ t r q s, AsksRules r q → Service.meant q.workspace s.analyzer = (.ok w, a) →
      (∃ selection : Selection, ((serve t r).drive s).1 = .ok (Response.ok selection.toJson).writable) ∨
        ∃ answer, ((serve t r).drive s).1 = .ok answer ∧ Refuses a w answer) ∧
    ∀ t r q s, AsksRun r q → createWorkspace q.workspace s.analyzer = (.ok w, a) →
      (∃ selection, ((select q.selectors (some w)).drive (a.listen Topic.all fun _ => none).2).1 =
          .ok selection) ∨
        ∃ answer, ((serve t r).drive s).1 = .ok answer ∧ Refuses a w answer := by
  refine ⟨fun start choice hchoice => ⟨fun f hf => h.allRules_denied hchoice hf,
    fun selectors f hf => h.select_denied selectors hchoice hf⟩, ?_, ?_⟩
  · intro t r q s hasks hmeant
    obtain ⟨start, choice, hchoice, hlist⟩ := Service.listRules_drive hmeant
    cases hselect : ((select q.selectors choice).drive start).1 with
    | ok selection =>
      exact .inl ⟨selection, serve_of_ok (hasks.respond_eq t) hasks.body ((congrArg Prod.fst hlist).trans hselect)⟩
    | error f =>
      have hdenied := h.select_denied q.selectors hchoice hselect
      exact .inr ⟨_, serve_of_error (hasks.respond_eq t) hasks.body ((congrArg Prod.fst hlist).trans hselect),
        refuses_ofFault hdenied⟩
  · intro t r q s hasks hcreated
    cases hselect : ((select q.selectors (some w)).drive (a.listen Topic.all fun _ => none).2).1 with
    | ok selection => exact .inl ⟨selection, rfl⟩
    | error f =>
      have hchosen : (workspaceOr (some w)).drive (a.listen Topic.all fun _ => none).2 =
          (.ok w, (a.listen Topic.all fun _ => none).2) := rfl
      have hdenied := (h.listen Topic.all).select_denied q.selectors hchosen hselect
      have hrun := Service.run_of_select_error (t := t) hcreated hselect
      exact .inr ⟨_, serve_of_error (hasks.respond_eq t) hasks.body hrun,
        refuses_ofFault (denied_of_listen hdenied)⟩

/-- One engine, which describes a rule without a name. -/
def nameless : Analyzer := withAnswers {} [("probe", ⟨0, .ok (.arr [.obj [("severity_level", .int 4)]])⟩)]

theorem nameless_cooperates : nameless.Cooperates anywhere where
  answers := by
    intro engine hengine
    cases List.mem_singleton.mp hengine
    exact ⟨_, rfl⟩
  takes := fun _ _ _ _ _ _ _ _ _ hk => nomatch hk

/-- The failure names the engine. -/
theorem descriptions_blame_nameless :
    nameless.Cooperates anywhere ∧
      ∃ f, ((allRules (some anywhere)).drive nameless).1 = .error f ∧ nameless.Denied anywhere f :=
  ⟨nameless_cooperates, _, rfl,
    (((descriptions_blame nameless_cooperates).1 nameless (some anywhere) rfl).1 _ rfl)⟩

/-- One engine, whose answer is `null`. -/
def nullAnswers : Analyzer := withAnswers {} [("probe", ⟨0, .ok .null⟩)]

/-- The failure is a type error that names no engine, and the response to a request for rules has status 500. -/
theorem descriptions_blame_nobody :
    nullAnswers.Cooperates anywhere ∧
      ((allRules (some anywhere)).drive nullAnswers).1 =
        .error (.raised .type "'NoneType' object is not iterable") ∧
      ((serve ⟨.ofRatio false 0 1, "now"⟩ { method := "POST", path := "/rules", body := "\x7b\x7d" }).drive
        { analyzer := nullAnswers, trail := ⟨"audit.jsonl"⟩ }).1 = .ok .crash := by
  refine ⟨⟨?_, fun _ _ _ _ _ _ _ _ _ hk => nomatch hk⟩, rfl, rfl⟩
  intro engine hengine
  cases List.mem_singleton.mp hengine
  exact ⟨_, rfl⟩

end Http

end Polyscan
