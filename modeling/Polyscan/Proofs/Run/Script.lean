import Polyscan.Proofs.Run.Transcript
import Polyscan.Proofs.Turns

/-!
The script of `run` under any listeners. A fault of a listener on a message of an engine is raised in that
engine, and one on an event of the analyzer itself ends the run. So the script has for each engine its
messages up to the first fault, and `run_enacts` says that `run` goes through its script up to the first fault
on an event of the analyzer. A listener can raise on one of two equal events, so the script depends on the
readings of the clock at which engines are announced. If no listener raises, the script is the transcript.
-/
namespace Polyscan

/-- An engine of a run with the reading of the clock at which it is announced. -/
structure TimedEngine where
  tick : Nat
  engine : String

/-- The reading of the clock at which the engine starts, after its two opening events. -/
def TimedEngine.start (x : TimedEngine) : Nat := x.tick + 2

namespace Analyzer

/-! ## Scripts of engines -/

/-- The report of an engine, or the fault of a listener on one of its messages. -/
def response (a : Analyzer) (selection : Selection) (o : RunOptions) (x : TimedEngine) :
    Except Fault Reported :=
  reply (a.firstRefusal (stamped x.start (a.forwarded selection o x.engine)))
    (a.performance selection o x.engine).report

/-- The results of an engine, if it is registered: those of a failure, or those of its report unless that is
refused. -/
def settled (a : Analyzer) (selection : Selection) (o : RunOptions) (x : TimedEngine) :
    Except Fault EngineResults :=
  match a.slots.get? x.engine with
  | none => .error (.unknown x.engine)
  | some _ =>
    match a.response selection o x with
    | .error f => .ok (.failure x.engine f)
    | .ok r => acceptReported a.host selection x.engine r

/-- The events that the messages of an engine are emitted as. -/
def passed (a : Analyzer) (selection : Selection) (o : RunOptions) (x : TimedEngine) :
    List (Event LogLevel) :=
  a.published x.start (a.forwarded selection o x.engine)

/-- The script of an engine. It ends early if the engine is not registered or its report is refused. -/
def part (a : Analyzer) (selection : Selection) (o : RunOptions) (x : TimedEngine) : List Cue :=
  (stamped x.tick (opening selection x.engine)).map .emits ++
    match a.slots.get? x.engine with
    | none => []
    | some _ =>
      .starts x.engine (namesFor selection x.engine) ::
        ((stamped x.start (a.passed selection o x)).map .passes ++
          match a.settled selection o x with
          | .ok r =>
            (stamped (x.start + (a.passed selection o x).length) (closing x.engine r)).map .emits
          | .error _ => [])

/-- The readings of the clock at which engines that run one after another are announced. -/
def timetable (a : Analyzer) (selection : Selection) (o : RunOptions) : Nat → List String → List TimedEngine
  | _, [] => []
  | tick, engine :: rest =>
    ⟨tick, engine⟩ ::
      a.timetable selection o (tick + (Cue.emitted (a.part selection o ⟨tick, engine⟩)).length) rest

/-- The engines that a run reaches: all up to the first that has no results. -/
def reached (a : Analyzer) (selection : Selection) (o : RunOptions) : List TimedEngine → List TimedEngine
  | [] => []
  | x :: rest =>
    x ::
      match a.settled selection o x with
      | .ok _ => a.reached selection o rest
      | .error _ => []

/-- The results of all engines, or the failure of the first one that has none. -/
def allSettled (a : Analyzer) (selection : Selection) (o : RunOptions) (xs : List TimedEngine) :
    Except Fault (List EngineResults) :=
  xs.mapM (a.settled selection o)

/-- The script of engines that run one after another. -/
def script (a : Analyzer) (selection : Selection) (o : RunOptions) (xs : List TimedEngine) : List Cue :=
  (a.reached selection o xs).flatMap (a.part selection o)

/-- The engines of a whole run, whose first event is the log of its options. -/
def runTimetable (a : Analyzer) (selection : Selection) (o : RunOptions) : List TimedEngine :=
  a.timetable selection o (a.clock + 1) selection.engineNames

/-- The script of a whole run. -/
def runScript (a : Analyzer) (selection : Selection) (o : RunOptions) : List Cue :=
  .emits ⟨a.clock, .log .debug (Diagnostic.runOptions o.toJson).text⟩ ::
    a.script selection o (a.runTimetable selection o)

variable {o : RunOptions} {selection : Selection} {a b : Analyzer}
variable {cues : List Cue} {engine : String} {x : TimedEngine} {s : Slot} {tick : Nat}

theorem script_cons (x : TimedEngine) (rest : List TimedEngine) :
    a.script selection o (x :: rest) = a.part selection o x ++
      match a.settled selection o x with
      | .ok _ => a.script selection o rest
      | .error _ => [] := by
  rw [script, reached, List.flatMap_cons]
  cases a.settled selection o x <;> rfl

theorem allSettled_cons (x : TimedEngine) (rest : List TimedEngine) :
    a.allSettled selection o (x :: rest) =
      match a.settled selection o x with
      | .ok r => (a.allSettled selection o rest).map (r :: ·)
      | .error f => .error f := by
  rw [allSettled, mapM_cons_eq]
  cases a.settled selection o x <;> rfl

theorem settled_of_slot (hs : a.slots.get? x.engine = some s) :
    a.settled selection o x =
      match a.response selection o x with
      | .error f => .ok (.failure x.engine f)
      | .ok r => acceptReported a.host selection x.engine r := by
  rw [settled, hs]

theorem map_engine_timetable (tick : Nat) (engines : List String) :
    (a.timetable selection o tick engines).map TimedEngine.engine = engines := by
  induction engines generalizing tick with
  | nil => rfl
  | cons engine rest ih => rw [timetable, List.map_cons, ih]

theorem map_engine_runTimetable (selection : Selection) (o : RunOptions) :
    (a.runTimetable selection o).map TimedEngine.engine = selection.engineNames :=
  map_engine_timetable _ _

theorem nodup_engine_runTimetable (selection : Selection) (o : RunOptions) :
    ((a.runTimetable selection o).map TimedEngine.engine).Nodup :=
  map_engine_runTimetable (a := a) selection o ▸ selection.groups.keys_nodup

/-! ## Earlier steps -/

namespace Passage

variable (h : Passage o cues a b)

include h

theorem performance_eq (engine : String) :
    b.performance selection o engine = a.performance selection o engine := by
  unfold performance
  rw [h.slots, h.host, h.files]
  cases a.slots.get? engine with
  | none => rfl
  | some s => simp

theorem forwarded_eq (engine : String) :
    b.forwarded selection o engine = a.forwarded selection o engine := by
  unfold forwarded
  rw [h.performance_eq, h.slots]
  cases a.slots.get? engine with
  | none => rfl
  | some s =>
    unfold Slot.forwarded Slot.forwards
    simp

theorem passed_eq (x : TimedEngine) : b.passed selection o x = a.passed selection o x := by
  rw [passed, passed, h.forwarded_eq, published, published, reach, reach, funext h.refusalOf]

theorem response_eq (x : TimedEngine) : b.response selection o x = a.response selection o x := by
  rw [response, response, h.forwarded_eq, h.performance_eq, firstRefusal, firstRefusal, funext h.refusalOf]

theorem settled_eq (x : TimedEngine) : b.settled selection o x = a.settled selection o x := by
  rw [settled, settled, h.response_eq, h.slots, h.host]
  cases a.slots.get? x.engine <;> rfl

theorem part_eq (x : TimedEngine) : b.part selection o x = a.part selection o x := by
  rw [part, part, h.passed_eq, h.settled_eq, h.slots]
  cases a.slots.get? x.engine <;> rfl

theorem timetable_eq (tick : Nat) (engines : List String) :
    b.timetable selection o tick engines = a.timetable selection o tick engines := by
  induction engines generalizing tick with
  | nil => rfl
  | cons engine rest ih => rw [timetable, timetable, h.part_eq, ih]

theorem reached_eq (xs : List TimedEngine) : b.reached selection o xs = a.reached selection o xs := by
  induction xs with
  | nil => rfl
  | cons x rest ih => rw [reached, reached, h.settled_eq, ih]

theorem allSettled_eq (xs : List TimedEngine) : b.allSettled selection o xs = a.allSettled selection o xs :=
  congrArg xs.mapM (funext h.settled_eq)

theorem script_eq (xs : List TimedEngine) : b.script selection o xs = a.script selection o xs := by
  rw [script, script, h.reached_eq, funext h.part_eq]

end Passage

/-! ## One engine -/

/-- Emits the opening events of an engine and looks it up. -/
def announce (engine : String) (names : List String) : Work Analyzer Slot :=
  (Work.now (emit (.progress engine (.given (.ofNat 0))))).bind fun _ => Work.now do
    say .debug (.engineRules engine names)
    slot engine

/-- Turns the report of an engine, or its fault, into its results. -/
def settle (selection : Selection) (engine : String) : Except Fault Reported → Work Analyzer EngineResults
  | .error f => Work.now do
    say .error (.engineRunFailed engine f.text)
    pure (.failure engine f)
  | .ok r => Work.now do acceptReported (← get).host selection engine r

/-- Runs one engine of a selection, from its opening events to its results. -/
def conductEngine (selection : Selection) (o : RunOptions) (engine : String) : Work Analyzer EngineResults :=
  (announce engine (namesFor selection engine)).bind fun s =>
    (runEngine engine s (namesFor selection engine) o).attempt.bind (settle selection engine)

theorem runAll_cons (engine : String) (rest : List String) (results : RunResults) :
    runAll selection o (engine :: rest) results =
      (conductEngine selection o engine).bind fun r =>
        (Work.now do
          emit (.progress engine (.given (.ofNat 100)))
          emit (.results r)).bind fun _ => runAll selection o rest (results.add r) := by
  have hsettle : resultsOf selection o engine = (Work.now do
      say .debug (.engineRules engine (namesFor selection engine))
      slot engine).bind fun s =>
        (runEngine engine s (namesFor selection engine) o).attempt.bind (settle selection engine) := rfl
  rw [runAll, conductEngine, announce, hsettle]
  simp only [Work.bind_assoc]

/-- `announce` goes through the opening events. -/
theorem announce_enacts (selection : Selection) (engine : String) {r : Except Fault Slot}
    (hr : slot engine a = (r, a)) :
    Enacts o (announce engine (namesFor selection engine)) a r
      ((stamped a.clock (opening selection engine)).map .emits) := by
  refine (Enacts.say _).bind fun b hb => .now_bind ?_
  rw [show a.clock + 1 = b.clock from hb.clock.symm]
  refine (Enacts.say _).bind_quiet fun c hc => .still ?_
  unfold slot at hr ⊢
  rw [(hb.trans hc).slot_eq rfl]
  cases hs : a.slots.get? engine <;> rw [hs] at hr <;> cases hr <;> rfl

/-- An engine is started, and its messages are emitted up to the first fault of a listener. -/
theorem attempt_enacts (selection : Selection) (hs : a.slots.get? x.engine = some s)
    (hclock : a.clock = x.start) :
    Enacts o (runEngine x.engine s (namesFor selection x.engine) o).attempt a
      (.ok (a.response selection o x))
      (.starts x.engine (namesFor selection x.engine) ::
        (stamped x.start (a.passed selection o x)).map .passes) := by
  have hforwarded : a.forwarded selection o x.engine =
      s.forwarded x.engine (a.performance selection o x.engine).messages := by
    simp [forwarded, hs]
  have hperform : a.performance selection o x.engine =
      s.engine.perform a.host (a.filesOf o.workspace) (namesFor selection x.engine) o := by
    simp [performance, hs]
  have hrun := (runEngine_enacts (o := o) (namesFor selection x.engine) hs).attempt
  rw [← hperform, ← hforwarded, ← List.singleton_append, stop_append, played_append_of_none rfl, played_emits,
    stop_emits, hclock] at hrun
  simpa [Cue.absorbed, response, passed, stop, Cue.stop?, Function.comp_def] using hrun

/-- A fault is logged and kept as the results, and a report is accepted or refused without an event. -/
theorem settle_enacts (selection : Selection) (hs : a.slots.get? x.engine = some s) :
    Enacts o (settle selection x.engine (a.response selection o x)) a (a.settled selection o x)
      (match a.settled selection o x with
        | .ok r => (stamped a.clock (failureEvents r)).map .emits
        | .error _ => []) := by
  rw [settled_of_slot hs]
  cases hresponse : a.response selection o x with
  | error f => exact .now_bind ((Enacts.say _).bind_quiet fun b hb => .still rfl)
  | ok r =>
    have hstill : Enacts o (settle selection x.engine (.ok r)) a
        (acceptReported a.host selection x.engine r) [] := by
      refine .now_get ?_
      exact .still (by cases acceptReported a.host selection x.engine r <;> rfl)
    cases haccept : acceptReported a.host selection x.engine r with
    | error f =>
      rw [haccept] at hstill
      simpa only [haccept] using hstill
    | ok e =>
      obtain ⟨-, vs, hvs⟩ := acceptReported_outcome haccept
      rw [haccept] at hstill
      simpa only [haccept, failureEvents, hvs, stamped, List.map_nil] using hstill

/-- The script of a registered engine up to its results, or to the refusal of its report. -/
def conduct (a : Analyzer) (selection : Selection) (o : RunOptions) (x : TimedEngine) : List Cue :=
  (stamped x.tick (opening selection x.engine)).map .emits ++
    (.starts x.engine (namesFor selection x.engine) ::
        (stamped x.start (a.passed selection o x)).map .passes ++
      match a.settled selection o x with
      | .ok r => (stamped (x.start + (a.passed selection o x).length) (failureEvents r)).map .emits
      | .error _ => [])

theorem emitted_starts (engine : String) (names : List String) (cues : List Cue) :
    Cue.emitted (.starts engine names :: cues) = Cue.emitted cues := rfl

theorem length_emitted_conduct {r : EngineResults} (hr : a.settled selection o x = .ok r) :
    (Cue.emitted (a.conduct selection o x)).length =
      2 + (a.passed selection o x).length + (failureEvents r).length := by
  rw [conduct, hr]
  simp only [Cue.emitted_append, Cue.emitted_emits, emitted_starts, Cue.emitted_passes,
    List.length_append, length_stamped, List.cons_append]
  show 2 + _ = _
  omega

/-- An engine that has results has its closing events in the end. -/
theorem part_of_ok {r : EngineResults} (hs : a.slots.get? x.engine = some s)
    (hr : a.settled selection o x = .ok r) :
    a.part selection o x = a.conduct selection o x ++
      (stamped (x.tick + (Cue.emitted (a.conduct selection o x)).length)
        [.progress x.engine (.given (.ofNat 100)), .results r]).map .emits := by
  have hend : x.tick + (2 + (a.passed selection o x).length + (failureEvents r).length) =
      x.start + (a.passed selection o x).length + (failureEvents r).length := by
    rw [TimedEngine.start]
    omega
  rw [length_emitted_conduct hr, hend, part, conduct, hs]
  simp only [hr, closing, stamped_append, List.map_append, List.append_assoc, List.cons_append]

theorem part_of_error {f : Fault} (hs : a.slots.get? x.engine = some s)
    (hf : a.settled selection o x = .error f) : a.part selection o x = a.conduct selection o x := by
  rw [part, conduct, hs]
  simp only [hf, List.append_nil]

/-- `conductEngine` on a registered engine goes through its script. -/
theorem conductEngine_enacts (selection : Selection) (hs : a.slots.get? x.engine = some s)
    (hclock : a.clock = x.tick) :
    Enacts o (conductEngine selection o x.engine) a (a.settled selection o x) (a.conduct selection o x) := by
  have hannounce := announce_enacts (o := o) selection x.engine (a := a) (by rw [slot, hs])
  rw [hclock] at hannounce
  refine hannounce.bind fun b hb => ?_
  have hstart : b.clock = x.start := by rw [hb.clock_emits, hclock]; rfl
  have hattempt := attempt_enacts (o := o) selection (hb.slot_same (Cue.launches_emits _) hs) hstart
  rw [hb.response_eq, hb.passed_eq] at hattempt
  refine hattempt.bind fun c hc => ?_
  have hpassage := hb.trans hc
  have hsettle := settle_enacts (o := o) selection (hpassage.slot_of hs)
  have hend : c.clock = x.start + (a.passed selection o x).length := by
    rw [hc.clock, hstart, emitted_starts, Cue.emitted_passes, length_stamped]
  rwa [hpassage.response_eq, hpassage.settled_eq, hend] at hsettle

/-! ## All engines -/

/-- The closing events come before the rest of the run. -/
theorem closing_enacts {α : Type} {next : Work Analyzer α} {out : Except Fault α} (r : EngineResults)
    (hnext : ∀ b, Passage o ((stamped a.clock [.progress engine (.given (.ofNat 100)), .results r]).map .emits)
      a b → Enacts o next b out cues) :
    Enacts o ((Work.now do
        emit (.progress engine (.given (.ofNat 100)))
        emit (.results r)).bind fun _ => next) a out
      ((stamped a.clock [.progress engine (.given (.ofNat 100)), .results r]).map .emits ++ cues) := by
  have hfirst : Enacts o (Work.now (emit (.progress engine (.given (.ofNat 100))))) a (.ok ())
      ((stamped a.clock [.progress engine (.given (.ofNat 100))]).map .emits) := .say _
  have hclosing : Enacts o (Work.now do
      emit (.progress engine (.given (.ofNat 100)))
      emit (.results r)) a (.ok ())
      ((stamped a.clock [.progress engine (.given (.ofNat 100)), .results r]).map .emits) :=
    .now_bind (hfirst.bind_emits fun _ _ => .say (.results r))
  exact hclosing.bind hnext

/-- `runAll` goes through the script of its engines. -/
theorem runAll_enacts (selection : Selection) (engines : List String) (results : RunResults) :
    Enacts o (runAll selection o engines results) a
      ((a.allSettled selection o (a.timetable selection o a.clock engines)).map
        (List.foldl RunResults.add results))
      (a.script selection o (a.timetable selection o a.clock engines)) := by
  -- the rest runs in another state, but what has gone before does not change its script
  induction engines generalizing a results with
  | nil => exact .pure results
  | cons engine rest ih =>
    rw [runAll_cons, timetable, script_cons, allSettled_cons]
    generalize hx : TimedEngine.mk a.clock engine = x
    obtain rfl : engine = x.engine := congrArg TimedEngine.engine hx
    have hclock : a.clock = x.tick := congrArg TimedEngine.tick hx
    cases hs : a.slots.get? x.engine with
    | none =>
      have hslot : slot x.engine a = (.error (.unknown x.engine), a) := by rw [slot, hs]
      have hsettled : a.settled selection o x = .error (.unknown x.engine) := by rw [settled, hs]
      have hannounce := announce_enacts (o := o) selection x.engine hslot
      simp only [part, hs, hsettled, List.append_nil, ← hclock]
      exact hannounce.bind_error.bind_error
    | some s =>
      have hconduct := conductEngine_enacts (o := o) selection hs hclock
      cases hsettled : a.settled selection o x with
      | error f =>
        rw [hsettled] at hconduct
        simpa only [part_of_error hs hsettled, List.append_nil, Except.map] using hconduct.bind_error
      | ok r =>
        rw [hsettled] at hconduct
        have hfold : ∀ out : Except Fault (List EngineResults),
            (out.map (r :: ·)).map (List.foldl RunResults.add results) =
              out.map (List.foldl RunResults.add (results.add r)) := by
          rintro (_ | _) <;> rfl
        simp only [hfold]
        rw [part_of_ok hs hsettled, List.append_assoc]
        refine hconduct.bind fun b hb => ?_
        have hend : x.tick + (Cue.emitted (a.conduct selection o x)).length = b.clock := by
          rw [hb.clock, hclock]
        have hpart := part_of_ok hs hsettled
        rw [hend] at hpart ⊢
        refine closing_enacts r fun c hc => ?_
        have hpassage := hb.trans hc
        rw [← hpart] at hpassage ⊢
        have hmore := ih (a := c) (results.add r)
        rwa [hpassage.timetable_eq, hpassage.script_eq, hpassage.allSettled_eq, hpassage.clock] at hmore

/-- `run` with resolved options goes through its script. -/
theorem run_enacts (selection : Selection) {w : Workspace} {points : List String}
    (hresolved : RunOptions.resolve a.host w points = .ok o) :
    Enacts o (run selection w points) a
      ((a.allSettled selection o (a.runTimetable selection o)).map RunResults.ofList)
      (a.runScript selection o) := by
  have hopening : Enacts o (Work.now do
      let o ← RunOptions.resolve (← get).host w points
      say .debug (.runOptions o.toJson)
      pure o) a (.ok o) [.emits ⟨a.clock, .log .debug (Diagnostic.runOptions o.toJson).text⟩] := by
    refine .now_get ?_
    rw [hresolved]
    exact .now_lift (.now_bind ((Enacts.say _).bind_quiet fun b hb => .still rfl))
  refine hopening.bind fun b hb => ?_
  have hall := runAll_enacts (o := o) (a := b) selection selection.engineNames .empty
  rwa [hb.timetable_eq, hb.script_eq, hb.allSettled_eq, show b.clock = a.clock + 1 from hb.clock] at hall

/-! ## Runs in which no listener raises -/

/-- No listener raises on a message of the engine. -/
def Unrefused (a : Analyzer) (selection : Selection) (o : RunOptions) (x : TimedEngine) : Prop :=
  a.firstRefusal (stamped x.start (a.forwarded selection o x.engine)) = none

theorem response_of_unrefused (h : a.Unrefused selection o x) :
    a.response selection o x = (a.performance selection o x.engine).report := by
  rw [response, h]
  rfl

theorem settled_of_unrefused (hs : a.slots.get? x.engine = some s) (h : a.Unrefused selection o x) :
    a.settled selection o x = a.verdict selection o x.engine := by
  rw [settled_of_slot hs, response_of_unrefused h]
  cases hreport : (a.performance selection o x.engine).report <;> simp only [verdict, hreport]

theorem part_of_unrefused (selection : Selection) (hs : a.slots.get? x.engine = some s)
    (h : a.Unrefused selection o x) :
    Cue.emitted (a.part selection o x) = stamped x.tick (a.engineEvents selection o x.engine) ∧
      Cue.launches (a.part selection o x) = [(x.engine, namesFor selection x.engine)] := by
  have hlaunches : ∀ cues, Cue.launches (.starts x.engine (namesFor selection x.engine) :: cues) =
      (x.engine, namesFor selection x.engine) :: Cue.launches cues := fun _ => rfl
  have hpassed : a.passed selection o x = a.forwarded selection o x.engine := published_of_firstRefusal h
  have hstart : x.tick + (opening selection x.engine).length = x.start := rfl
  rw [part, engineEvents, hs, settled_of_unrefused hs h, hpassed]
  simp only [Cue.emitted_append, Cue.launches_append, emitted_starts, hlaunches, Cue.emitted_emits,
    Cue.emitted_passes, Cue.launches_emits, Cue.launches_passes, stamped_append, hstart]
  cases a.verdict selection o x.engine with
  | ok r => simp
  | error f => exact ⟨rfl, rfl⟩

/-- If no listener raises, the script of engines is their transcript. -/
theorem script_of_quiet {engines : List String} (hregistered : ∀ engine ∈ engines, engine ∈ a.engineNames)
    (ht : a.TakesAll (a.transcript selection o engines)) (tick : Nat) :
    Cue.emitted (a.script selection o (a.timetable selection o tick engines)) =
        stamped tick (a.transcript selection o engines) ∧
      Cue.launches (a.script selection o (a.timetable selection o tick engines)) =
        startsOf selection (a.started selection o engines) ∧
      a.allSettled selection o (a.timetable selection o tick engines) = a.verdicts selection o engines := by
  induction engines generalizing tick with
  | nil => exact ⟨rfl, rfl, rfl⟩
  | cons engine rest ih =>
    obtain ⟨hengine, hrest⟩ := List.forall_mem_cons.mp hregistered
    obtain ⟨s, hs⟩ := mem_engineNames_iff.mp hengine
    rw [transcript_cons] at ht
    have hunrefused : a.Unrefused selection o ⟨tick, engine⟩ := by
      have hchapter := ht.left
      rw [engineEvents] at hchapter
      exact firstRefusal_of_takesAll hchapter.right.left _
    obtain ⟨hemitted, hlaunches⟩ := part_of_unrefused (o := o) (x := ⟨tick, engine⟩) selection hs hunrefused
    rw [timetable, script_cons, allSettled_cons, transcript_cons, startsOf_started_cons, verdicts_cons,
      Cue.emitted_append, Cue.launches_append, hlaunches, settled_of_unrefused hs hunrefused, hemitted,
      stamped_append, length_stamped]
    cases hverdict : a.verdict selection o engine with
    | error f => exact ⟨by simp [Cue.emitted, stamped], by simp [Cue.launches], rfl⟩
    | ok r =>
      rw [hverdict] at ht
      obtain ⟨hemitted', hlaunches', hall⟩ :=
        ih hrest ht.right (tick + (a.engineEvents selection o engine).length)
      simp only [hemitted', hlaunches', hall, and_self]

/-- `run` with resolved options goes through its transcript if no listener raises. -/
theorem run_of_quiet {w : Workspace} {points : List String}
    (hresolved : RunOptions.resolve a.host w points = .ok o)
    (hregistered : ∀ engine ∈ selection.engineNames, engine ∈ a.engineNames)
    (hquiet : a.TakesAll (a.runEvents selection o)) :
    ∃ b, (run selection w points).drive a =
        ((a.verdicts selection o selection.engineNames).map RunResults.ofList, b) ∧
      Course o (a.runEvents selection o)
        (startsOf selection (a.started selection o selection.engineNames)) a b := by
  obtain ⟨hemitted, hlaunches, hall⟩ := script_of_quiet hregistered hquiet.tail (a.clock + 1)
  have hevents : Cue.emitted (a.runScript selection o) = stamped a.clock (a.runEvents selection o) :=
    congrArg (_ :: ·) hemitted
  have hnone : a.stop (a.runScript selection o) = none := by
    refine stop_eq_none_iff.mpr fun p hp => ?_
    have hemitted : p ∈ stamped a.clock (a.runEvents selection o) := by
      rw [← hevents]
      exact List.mem_filterMap.mpr ⟨_, hp, rfl⟩
    exact hquiet.takesAt hemitted
  obtain ⟨b, hdrive, hpassage⟩ := run_enacts selection hresolved
  rw [hnone, runTimetable, hall] at hdrive
  rw [played_of_none hnone] at hpassage
  have hcourse := hpassage.course hevents hquiet
  rw [show Cue.launches (a.runScript selection o) = _ from hlaunches] at hcourse
  exact ⟨b, hdrive, hcourse⟩

end Analyzer

end Polyscan
