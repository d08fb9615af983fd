import Polyscan.Proofs.Catalogue.Agreement
import Polyscan.Proofs.Run.Starting
import Polyscan.Proofs.Service.Report

/-!
Requests for rules and for runs with the same selectors over the same files. Rules are listed flat and are run
engine by engine. As a selection keeps the rules of an engine together, the run starts the engines of the list
in their order, each with the names that are listed for it.
-/
namespace Polyscan

/-! ## Flat and by engine -/

/-- The starts have the names of the rules that the flat list has for each engine, in its order. -/
structure Starts.Covers (starts : Starts) (rules : List (String × String)) : Prop where
  distinct : (starts.map Prod.fst).Nodup
  engines : ∀ engine, engine ∈ starts.map Prod.fst ↔ engine ∈ rules.map Prod.fst
  names : ∀ s ∈ starts, s.2 = (rules.filter fun r => r.1 = s.1).map Prod.snd
  all : (starts.flatMap fun s => s.2.map fun name => (s.1, name)) = rules

/-- Groups under distinct keys can be recovered from the flat list. -/
theorem Starts.names_of_flatMap {starts : Starts} (h : (starts.map Prod.fst).Nodup) :
    ∀ s ∈ starts, ((starts.flatMap fun s => s.2.map fun name => (s.1, name)).filter fun r => r.1 = s.1).map
      Prod.snd = s.2 := by
  have hown : ∀ s : String × List String,
      (((s.2.map fun name => (s.1, name)).filter fun r => r.1 = s.1).map Prod.snd) = s.2 := by
    intro s
    simp [List.filter_eq_self.mpr, Function.comp_def]
  have hother : ∀ (ts : Starts) (engine : String), engine ∉ ts.map Prod.fst →
      ((ts.flatMap fun s => s.2.map fun name => (s.1, name)).filter fun r => r.1 = engine) = [] := by
    intro ts engine hengine
    rw [List.filter_eq_nil_iff]
    intro r hr
    obtain ⟨s, hs, hr⟩ := List.mem_flatMap.mp hr
    obtain ⟨name, -, rfl⟩ := List.mem_map.mp hr
    simp only [decide_eq_true_eq]
    rintro rfl
    exact hengine (List.mem_map_of_mem hs)
  induction starts with
  | nil => exact fun _ => nofun
  | cons t rest ih =>
    rw [List.map_cons, List.nodup_cons] at h
    intro s hs
    rw [List.flatMap_cons, List.filter_append, List.map_append]
    rcases List.mem_cons.mp hs with rfl | hs
    · rw [hown, hother rest s.1 h.1, List.map_nil, List.append_nil]
    · have hne : s.1 ∉ [t].map Prod.fst := by
        intro hmem
        rw [← List.mem_singleton.mp hmem] at h
        exact h.1 (List.mem_map_of_mem hs)
      have hfirst := hother [t] s.1 hne
      rw [List.flatMap_singleton] at hfirst
      rw [hfirst, List.map_nil, List.nil_append]
      exact ih h.2 s hs

namespace Selection

theorem toList_eq (s : Selection) : s.toList = s.engineNames.flatMap s.rulesFor := by
  have hgroup : ∀ x ∈ s.groups.entries, s.rulesFor x.1 = x.2.values := by
    intro x hx
    unfold rulesFor rulesByName
    rw [OrderedMap.get?_eq_some_iff.mpr hx, Option.getD_some]
  unfold toList engineNames OrderedMap.keys OrderedMap.values
  rw [List.flatMap_map, List.flatMap_map]
  exact List.flatMap_congr fun x hx => (hgroup x hx).symm

/-- A run of a selection starts what the selection lists. -/
theorem covers_startsOf {s : Selection} (h : s.Filed) :
    (Analyzer.startsOf s s.engineNames).Covers (s.toList.map Rule.identity) := by
  have hengines : (Analyzer.startsOf s s.engineNames).map Prod.fst = s.engineNames := by
    rw [Analyzer.startsOf, List.map_map]
    exact List.map_id _
  have hdistinct : ((Analyzer.startsOf s s.engineNames).map Prod.fst).Nodup := by
    rw [hengines]
    exact s.groups.keys_nodup
  have hall : ((Analyzer.startsOf s s.engineNames).flatMap fun x => x.2.map fun name => (x.1, name)) =
      s.toList.map Rule.identity := by
    rw [toList_eq, List.map_flatMap, Analyzer.startsOf, List.flatMap_map]
    refine List.flatMap_congr fun engine hengine => ?_
    simp only [Analyzer.namesFor, List.map_map]
    exact List.map_congr_left fun r hr => by
      rw [Function.comp_apply, Rule.identity, (h.find?_of_mem_rulesFor hr).1]
  refine ⟨hdistinct, fun engine => ?_, fun x hx => ?_, hall⟩
  · rw [hengines, List.map_map]
    constructor
    · intro hengine
      obtain ⟨r, hr⟩ := List.exists_mem_of_ne_nil _ (h.nonempty engine hengine)
      refine List.mem_map.mpr ⟨r, ?_, (h.find?_of_mem_rulesFor hr).1⟩
      rw [toList_eq]
      exact List.mem_flatMap.mpr ⟨engine, hengine, hr⟩
    · intro hengine
      obtain ⟨r, hr, rfl⟩ := List.mem_map.mp hengine
      rw [toList_eq] at hr
      obtain ⟨engine, hengine, hr⟩ := List.mem_flatMap.mp hr
      rw [Function.comp_apply, Rule.identity, (h.find?_of_mem_rulesFor hr).1]
      exact hengine
  · rw [← hall]
    exact (Starts.names_of_flatMap hdistinct x hx).symm

end Selection

/-- The rules that a response lists, each with its engine. -/
def Json.listedRules (v : Json) : List (String × String) :=
  (v.itemsOf "rules").map fun r => (r.textOf "engine", r.textOf "name")

theorem listedRules_toJson (s : Selection) : s.toJson.listedRules = s.toList.map Rule.identity := by
  show (s.toList.map Rule.toJson).map _ = _
  rw [List.map_map]
  rfl

theorem Json.areFinite_map {α : Type} {f : α → Json} {l : List α} (h : ∀ x ∈ l, (f x).isFinite = true) :
    areFinite (l.map f) = true := by
  induction l with
  | nil => rfl
  | cons x rest ih =>
    rw [List.map_cons, areFinite, h x List.mem_cons_self, ih fun y hy => h y (List.mem_cons_of_mem x hy)]
    rfl

/-- A list of rules can always be written. -/
theorem writable_toJson (s : Selection) : (Http.Response.ok s.toJson).writable = .ok s.toJson := by
  have hstrings : ∀ texts : List String, (Json.strings texts).isFinite = true := fun texts =>
    Json.areFinite_map fun _ _ => rfl
  have hrule : ∀ r ∈ s.toList, r.toJson.isFinite = true := by
    intro r _
    simp [Rule.toJson, Json.isFinite, Json.haveFinite, Json.nat, hstrings]
  have hfinite : s.toJson.isFinite = true := by
    simp [Selection.toJson, Json.isFinite, Json.haveFinite, Json.nat, Json.areFinite_map hrule]
  show (if s.toJson.isFinite then _ else _) = _
  rw [if_pos hfinite]

/-! ## Two requests -/

/-- Another listener that never raises does not affect the selection. -/
theorem Analyzer.Peers.attended {a b : Analyzer} {paths : List String} (h : a.Peers b paths)
    (hnumbered : b.Numbered) : a.Peers b.attended paths :=
  { h with refusals := fun e tick tick' => (hnumbered.refusalOf_attended _).trans (h.refusals e tick tick') }

namespace Service

open Analyzer Work

/-- `listRules` in a given workspace selects in a new workspace of these paths. -/
theorem listRules_selectAfresh {q : RulesRequest} (hq : q.workspace ≠ []) (s : Service) :
    ((listRules q).drive s).1 = ((selectAfresh q.selectors q.workspace).drive s.analyzer).1 := by
  have hfilled : ¬ q.workspace.isEmpty = true := fun h => hq (List.isEmpty_iff.mp h)
  rw [listRules, drive_analyzing, selectAfresh, drive_bind, drive_now]
  simp only [if_neg hfilled, drive_then, drive_map, drive_now]
  rcases createWorkspace q.workspace s.analyzer with ⟨f | w, a⟩ <;> rfl

variable {p : RunRequest} {a : Analyzer}

/-- The work of a run fails if its selection fails. -/
theorem selectAndRun_of_error {f : Fault}
    (h : ((selectAfresh p.selectors p.workspace).drive a).1 = .error f) :
    ((selectAndRun p).drive a).1 = .error f := by
  rw [selectAfresh, drive_bind, drive_now] at h
  rw [selectAndRun, drive_then, drive_now]
  rcases hcreated : createWorkspace p.workspace a with ⟨g | w, c⟩
  · rw [hcreated] at h
    cases h
    rfl
  · rw [hcreated] at h
    exact drive_then_of_error h _

/-- Why a request for a run has started no more engines: its start points were refused, or the run was cut
short. -/
inductive Halted (p : RunRequest) (a : Analyzer) (selection : Selection) (o : RunOptions) (played : Starts)
    (f : Fault) : Prop
  | rejected {inputs : List String} (hinputs : Workspace.absoluteInputs a.host [] p.workspace = .ok inputs)
      (hpoints : RunOptions.resolve a.host (a.nextWorkspace inputs) p.startPoints = .error f)
      (hnone : played = []) : Halted p a selection o played f
  | cut (h : a.CutShort selection o played f) : Halted p a selection o played f

/-- A request for a run starts engines in the listed order with the listed names: the first of them until it
is halted, and all of them if it returns results. -/
structure Follows (p : RunRequest) (a b : Analyzer) (selection : Selection) (starts played : Starts)
    (outcome : Except Fault (Workspace × RunResults)) : Prop where
  ahead : played <+: starts
  launched : ∃ o, Launched o played a b ∧ ∀ f, outcome = .error f → Halted p a selection o played f
  complete : ∀ x, outcome = .ok x → played = starts

theorem launched_selectAfresh (o : RunOptions) (a : Analyzer) (selectors paths : List String) :
    Launched o [] a ((selectAfresh selectors paths).drive a).2 := by
  have hcreated : (idling o).Abides (Work.now (createWorkspace paths)) := by
    refine .now fun a => .of_slots_eq ?_ ⟨[], emits_createWorkspace paths a⟩
    cases hinputs : Workspace.absoluteInputs a.host [] paths with
    | error f => rw [createWorkspace_of_error hinputs]
    | ok inputs => rw [createWorkspace_of_ok hinputs]
  exact (hcreated.bind fun w => (allowsListing_idling o).select (.pure w) selectors).drive a

/-- With a workspace and a selection, the outcome is that of the run. -/
theorem selectAndRun_drive {c d : Analyzer} {w : Workspace} {selection : Selection}
    (hcreated : createWorkspace p.workspace a = (.ok w, c))
    (hselect : (select p.selectors (some w)).drive c = (.ok selection, d)) :
    (selectAndRun p).drive a =
      (((Analyzer.run selection w p.startPoints).drive d).1.map fun results => (w, results),
        ((Analyzer.run selection w p.startPoints).drive d).2) := by
  rw [selectAndRun, drive_then, drive_now, hcreated]
  simp only [drive_then, hselect]
  rcases (Analyzer.run selection w p.startPoints).drive d with ⟨_ | _, _⟩ <;> rfl

/-- A request for a run whose rules can be selected starts the engines of the selection. -/
theorem selectAndRun_follows {selection : Selection}
    (h : ((selectAfresh p.selectors p.workspace).drive a).1 = .ok selection) :
    ∃ played, Follows p a ((selectAndRun p).drive a).2 selection (startsOf selection selection.engineNames)
      played ((selectAndRun p).drive a).1 := by
  obtain ⟨inputs, rules, hinputs, hcatalogue, hselection⟩ := catalogue_of_selectAfresh h
  rcases hafresh : (selectAfresh p.selectors p.workspace).drive a with ⟨r, d⟩
  rw [hafresh] at h
  obtain rfl : r = .ok selection := h
  have hbefore : ∀ o, Launched o [] a d := fun o => by
    have hlaunched := launched_selectAfresh o a p.selectors p.workspace
    rwa [hafresh] at hlaunched
  obtain ⟨w, c, hcreated, hselect⟩ := drive_bind_eq_ok_iff.mp hafresh
  obtain rfl : w = a.nextWorkspace inputs := by
    rw [drive_now, createWorkspace_of_ok hinputs] at hcreated
    exact (Except.ok.inj (Prod.mk.inj hcreated).1).symm
  have hregistered : ∀ engine ∈ selection.engineNames, engine ∈ d.engineNames := fun engine hengine =>
    (hbefore default).registered
      (registered_of_catalogue hcatalogue p.selectors engine (hselection ▸ hengine))
  rw [selectAndRun_drive hcreated hselect, run_drive]
  cases hpoints : RunOptions.resolve d.host (a.nextWorkspace inputs) p.startPoints with
  | error f =>
    refine ⟨[], List.nil_prefix, ⟨default, hbefore default, fun g hg => ?_⟩, fun x hx => ?_⟩
    · cases hg
      rw [(hbefore default).host] at hpoints
      exact .rejected hinputs hpoints rfl
    · cases hx
  | ok o =>
    obtain ⟨played, hahead, hlaunched, hcomplete, hcut⟩ := runWith_launches (o := o) hregistered
    refine ⟨played, hahead, ⟨o, (hbefore o).trans hlaunched, fun f hf => ?_⟩, fun x hx => ?_⟩
    · cases hdrive : ((runWith selection o).drive d).1 with
      | error g =>
        simp only [hdrive] at hf
        cases hf
        exact .cut ((hcut f hdrive).after (hbefore o))
      | ok results =>
        simp only [hdrive] at hf
        cases hf
    · cases hdrive : ((runWith selection o).drive d).1 with
      | error g =>
        simp only [hdrive] at hx
        cases hx
      | ok results => exact hcomplete results hdrive

end Service

namespace Http

open Analyzer

section

variable {t t' : Timing} {r r' : Request} {q : RulesRequest} {p : RunRequest} {s s' : Service}

/-- A request for a run whose rules can be selected starts engines, and is answered with the failure of the
run if there is one. -/
theorem AsksRun.serve_follows (hasks : AsksRun r p) {selection : Selection}
    (h : ((selectAfresh p.selectors p.workspace).drive s.analyzer.attended).1 = .ok selection) :
    ∃ played outcome b answer s', (Service.selectAndRun p).drive s.analyzer.attended = (outcome, b) ∧
      (serve t r).drive s = (.ok answer, s') ∧ s'.analyzer.slots = b.slots ∧
      Service.Follows p s.analyzer.attended b selection (startsOf selection selection.engineNames) played
        outcome ∧
      ∀ f, outcome = .error f → answer = .ofFault f := by
  obtain ⟨played, hfollows⟩ := Service.selectAndRun_follows h
  rcases hwork : (Service.selectAndRun p).drive s.analyzer.attended with ⟨outcome, b⟩
  rw [hwork] at hfollows
  rcases hrun : (Service.run t p).drive s with ⟨f | report, s'⟩
  · have hserve : (serve t r).drive s = (.ok (.ofFault f), s') := by
      rw [serve_drive, hasks.respond_error hrun]
      exact congrArg (fun x => (Except.ok x, s')) (writable_ofFault f)
    refine ⟨played, outcome, b, .ofFault f, s', rfl, hserve, ?_, hfollows, ?_⟩
    · rw [Service.run_eq_error hrun, hwork]
      rfl
    · rintro g rfl
      have hfailed := Service.run_of_error (t := t) (congrArg Prod.fst hwork)
      rw [hrun] at hfailed
      rw [Except.error.inj hfailed]
  · have hserve : (serve t r).drive s = (.ok (Response.ok report.toJson).writable, s') := by
      rw [serve_drive, hasks.respond_ok hrun]
      rfl
    obtain ⟨c, hdone, -, -, host, note, -, rfl⟩ := Service.run_eq_ok hrun
    obtain ⟨rfl, rfl⟩ := Prod.mk.inj (hwork.symm.trans hdone)
    exact ⟨played, _, b, _, _, rfl, hserve, rfl, hfollows, nofun⟩

/-- `serve` on a request for rules and on a request for a run with the same selectors and paths, where engines
describe the same rules both times (`Peers`). Either both select the same rules: the first response lists
them, and the run starts the listed engines in order, each with the names listed for it, until it is halted:
before any engine if its start points are refused, and else by a fault of a listener or the refusal of a
report. A run that returns results has started all of them. Or both fail to select rules, and respond with
that failure, which is the same if engines take equally many rounds (`InStep`). -/
theorem rules_foretell_run (hrules : AsksRules r q) (hrun : AsksRun r' p)
    (hselectors : p.selectors = q.selectors) (hworkspace : p.workspace = q.workspace)
    (hpeers : s.analyzer.Peers s'.analyzer q.workspace) (hnumbered : s'.analyzer.Numbered) :
    (∃ selection starts, ((selectAfresh q.selectors q.workspace).drive s.analyzer).1 = .ok selection ∧
      ((selectAfresh q.selectors q.workspace).drive s'.analyzer.attended).1 = .ok selection ∧
      ((serve t r).drive s).1 = .ok (.ok selection.toJson) ∧ starts.Covers selection.toJson.listedRules ∧
      ∃ played outcome b answer u, (Service.selectAndRun p).drive s'.analyzer.attended = (outcome, b) ∧
        (serve t' r').drive s' = (.ok answer, u) ∧ u.analyzer.slots = b.slots ∧
        Service.Follows p s'.analyzer.attended b selection starts played outcome ∧
        ∀ f, outcome = .error f → answer = .ofFault f) ∨
    ∃ f g, ((selectAfresh q.selectors q.workspace).drive s.analyzer).1 = .error f ∧
      ((selectAfresh q.selectors q.workspace).drive s'.analyzer.attended).1 = .error g ∧
      ((serve t r).drive s).1 = .ok (.ofFault f) ∧ ((serve t' r').drive s').1 = .ok (.ofFault g) ∧
      (s.analyzer.InStep s'.analyzer q.workspace → f = g) := by
  have hfilled : q.workspace ≠ [] := hworkspace ▸ hrun.workspace_ne_nil
  have hlisted := Service.listRules_selectAfresh hfilled s
  rcases (hpeers.attended hnumbered).select_agrees q.selectors with
    ⟨selection, hfirst, hsecond⟩ | ⟨f, g, hfirst, hsecond, hsame⟩
  · obtain ⟨inputs, rules, -, -, hselection⟩ := catalogue_of_selectAfresh hfirst
    have hfiled : selection.Filed := hselection ▸ Selection.filed_select rules q.selectors
    have hfollows := hrun.serve_follows (t := t') (s := s') (by rw [hselectors, hworkspace]; exact hsecond)
    refine .inl ⟨selection, _, hfirst, hsecond, ?_, ?_, hfollows⟩
    · rw [serve_of_ok (hrules.respond_eq t) hrules.body (hlisted.trans hfirst), writable_toJson]
    · rw [listedRules_toJson]
      exact Selection.covers_startsOf hfiled
  · refine .inr ⟨f, g, hfirst, hsecond,
      serve_of_error (hrules.respond_eq t) hrules.body (hlisted.trans hfirst), ?_, hsame⟩
    have hfailed : ((Service.selectAndRun p).drive s'.analyzer.attended).1 = .error g :=
      Service.selectAndRun_of_error (by rw [hselectors, hworkspace]; exact hsecond)
    exact serve_of_error (hrun.respond_eq t') hrun.body (Service.run_of_error hfailed)

end

/-- Two rules of two engines are listed, and both engines are started with them although one of them raises. -/
theorem rules_foretell_run_twoEngines :
    ∃ (selection : Selection) (starts : Starts) (answer : Response) (u : Service) (b : Analyzer)
      (o : RunOptions),
      ((serve sampleTiming (.forRules tabRules)).drive twoEngineService).1 = .ok (.ok selection.toJson) ∧
        selection.toJson.listedRules = [("probe", "Tab"), ("broken", "Tab")] ∧
        starts.Covers selection.toJson.listedRules ∧
        (serve sampleTiming (.forRun tabRun)).drive twoEngineService = (.ok answer, u) ∧
        Launched o starts twoEngineService.analyzer.attended b ∧ u.analyzer.slots = b.slots := by
  have hnumbered : twoEngineService.analyzer.Numbered := ⟨fun _ => (nomatch ·), fun _ => (nomatch ·)⟩
  have hlisted : ((selectAfresh tabRules.selectors tabRules.workspace).drive
      twoEngineService.analyzer).1.toOption.map (fun s => s.toList.map Rule.identity) =
        some [("probe", "Tab"), ("broken", "Tab")] := by decide +kernel
  have hdone : ((Service.selectAndRun tabRun).drive twoEngineService.analyzer.attended).1.isOk = true := by
    decide +kernel
  have hasks : AsksRun (.forRun tabRun) tabRun := asksRun_forRun (List.cons_ne_nil _ _)
  rcases @rules_foretell_run sampleTiming sampleTiming _ _ _ _ twoEngineService twoEngineService
    (asksRules_forRules tabRules) hasks rfl rfl (.refl (fun _ _ _ => rfl) _) hnumbered with
    ⟨selection, starts, hfirst, -, hanswer, hcovers, played, outcome, b, answer, u, hwork, hserve, hslots,
      hfollows, -⟩ | ⟨f, g, hfirst, -⟩
  · obtain ⟨o, hlaunched, -⟩ := hfollows.launched
    rw [hfirst] at hlisted
    rw [hwork] at hdone
    cases outcome with
    | error f => cases hdone
    | ok x =>
      rw [hfollows.complete x rfl] at hlaunched
      refine ⟨selection, starts, answer, u, b, o, hanswer, ?_, hcovers, hserve, hlaunched, hslots⟩
      rw [listedRules_toJson]
      exact Option.some.inj hlisted
  · rw [hfirst] at hlisted
    cases hlisted

/-- A finding in a file that cannot be looked up. -/
def unaskableTab : Finding Int :=
  { oneTab with locations := [{ file := "~a\x00b", startLine := 1, startColumn := 1 }] }

/-- A service with two engines, of which the first reports a finding in a file that cannot be looked up. -/
def unaskableFindingService : Service where
  analyzer :=
    { oneFile with
      slots := .ofList [("probe", tabSlot "probe" (.ok (.findings [unaskableTab]))),
        ("later", tabSlot "later" (.ok (.findings [])))] }
  trail := ⟨"/audit.jsonl"⟩

/-- Both engines are listed, but the report of the first one ends the run with a failure that is no breach of
the contract: the response has status 500, and the second engine is not started. -/
theorem run_stops_untold :
    ∃ (selection : Selection) (u : Service),
      ((serve sampleTiming (.forRules tabRules)).drive unaskableFindingService).1 = .ok (.ok selection.toJson) ∧
      selection.toJson.listedRules = [("probe", "Tab"), ("later", "Tab")] ∧
      (Service.run sampleTiming tabRun).drive unaskableFindingService = (.error Host.nullByte, u) ∧
      Host.nullByte.kind ≠ .contract ∧
      (serve sampleTiming (.forRun tabRun)).drive unaskableFindingService = (.ok .crash, u) ∧
      (u.analyzer.slots.get? "later").map Slot.runs = some [] := by
  have hlisted : ((selectAfresh tabRules.selectors tabRules.workspace).drive
      unaskableFindingService.analyzer).1.toOption.map (fun s => s.toList.map Rule.identity) =
        some [("probe", "Tab"), ("later", "Tab")] := by decide +kernel
  have hfailed : ((Service.selectAndRun tabRun).drive unaskableFindingService.analyzer.attended).1 =
      .error Host.nullByte := rfl
  have hidle : (((Service.selectAndRun tabRun).drive unaskableFindingService.analyzer.attended).2.slots.get?
      "later").map Slot.runs = some [] := rfl
  have hasks : AsksRun (.forRun tabRun) tabRun := asksRun_forRun (List.cons_ne_nil _ _)
  have hfound := Service.listRules_selectAfresh (q := tabRules) (List.cons_ne_nil _ _) unaskableFindingService
  rcases hselect : ((selectAfresh tabRules.selectors tabRules.workspace).drive
    unaskableFindingService.analyzer).1 with f | selection
  · rw [hselect] at hlisted
    cases hlisted
  · rw [hselect] at hlisted hfound
    rcases hrun : (Service.run sampleTiming tabRun).drive unaskableFindingService with ⟨outcome, u⟩
    obtain rfl : outcome = .error Host.nullByte := by
      rw [← Service.run_of_error (t := sampleTiming) hfailed, hrun]
    have hasksRules := asksRules_forRules tabRules
    refine ⟨selection, u, ?_, ?_, rfl, by decide, ?_, ?_⟩
    · rw [serve_of_ok (hasksRules.respond_eq sampleTiming) hasksRules.body hfound, writable_toJson]
    · rw [listedRules_toJson]
      exact Option.some.inj hlisted
    · rw [serve_drive, hasks.respond_error hrun]
      rfl
    · rw [Service.run_eq_error hrun]
      exact hidle

end Http

end Polyscan
