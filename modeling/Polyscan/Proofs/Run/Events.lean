import Polyscan.Proofs.Run.Outcome

/-!
The events of `run`: what is emitted, at which readings of the clock, and which engines are started. The
messages of an engine are emitted once each if and only if each of their kinds has one forwarding
subscription.
-/
namespace Polyscan

/-! ## Passing on -/

/-- The event is a log message of an engine. -/
def Event.isEngineLog : Event LogLevel → Bool
  | .engineLog .. => true
  | _ => false

def EngineMessage.isLog : EngineMessage → Bool
  | log .. => true
  | progress _ => false

theorem EngineMessage.isEngineLog_toEvent (engine : String) (m : EngineMessage) :
    (m.toEvent engine).isEngineLog = m.isLog := by
  cases m <;> rfl

namespace Slot

variable {s : Slot} {engine : String}

/-- The number of subscriptions that forward log messages, or progress messages. -/
def forwardsOf (s : Slot) (log : Bool) : Nat := if log then s.logForwards else s.progressForwards

theorem forwardsOf_isLog (m : EngineMessage) : s.forwardsOf m.isLog = s.forwards m := by
  cases m <;> rfl

/-- The number of events of a kind is the number of messages of that kind times that of its subscriptions. -/
theorem countP_forwarded (log : Bool) (messages : List EngineMessage) :
    (s.forwarded engine messages).countP (fun e => e.isEngineLog == log) =
      messages.countP (fun m => m.isLog == log) * s.forwardsOf log := by
  induction messages with
  | nil => simp [forwarded]
  | cons m rest ih =>
    rw [forwarded_cons, List.countP_append, ih, List.countP_replicate, EngineMessage.isEngineLog_toEvent,
      List.countP_cons, Nat.add_mul, Nat.add_comm, ← forwardsOf_isLog]
    by_cases hkind : m.isLog = log
    · subst hkind
      simp
    · simp [hkind]

/-- Every message becomes one event if and only if each kind that occurs has one forwarding subscription. -/
theorem forwarded_eq_map_iff {messages : List EngineMessage} :
    s.forwarded engine messages = messages.map (EngineMessage.toEvent engine) ↔
      ∀ m ∈ messages, s.forwards m = 1 := by
  constructor
  · -- the messages of one kind are counted on both sides
    intro h m hm
    have hcount : (s.forwarded engine messages).countP (fun e => e.isEngineLog == m.isLog) = _ :=
      countP_forwarded m.isLog messages
    have hmap : ∀ l : List EngineMessage, (l.map (EngineMessage.toEvent engine)).countP
        (fun e => e.isEngineLog == m.isLog) = l.countP fun x => x.isLog == m.isLog := by
      intro l
      rw [List.countP_map]
      simp only [Function.comp_def, EngineMessage.isEngineLog_toEvent]
    have hpos : 0 < messages.countP fun x => x.isLog == m.isLog :=
      List.countP_pos_iff.mpr ⟨m, hm, by simp⟩
    rw [h, hmap] at hcount
    rw [← forwardsOf_isLog]
    exact (Nat.eq_of_mul_eq_mul_left hpos (by omega)).symm
  · intro h
    unfold forwarded
    induction messages with
    | nil => rfl
    | cons m rest ih =>
      rw [List.flatMap_cons, h m List.mem_cons_self,
        ih fun x hx => h x (List.mem_cons_of_mem _ hx)]
      rfl

end Slot

namespace Analyzer

variable {a : Analyzer} {selection : Selection} {o : RunOptions}

/-! ## Starting -/

/-- An engine that is started once is called once, with its own rules. -/
theorem callsOf_startsOf {engines : List String} (hnodup : engines.Nodup) (engine : String) :
    (startsOf selection engines).callsOf o engine =
      if engine ∈ engines then [(namesFor selection engine, o)] else [] := by
  induction engines with
  | nil => rfl
  | cons x rest ih =>
    rw [List.nodup_cons] at hnodup
    have hrest := ih hnodup.2
    unfold startsOf Starts.callsOf at hrest ⊢
    by_cases hx : x = engine
    · subst hx
      rw [if_neg hnodup.1] at hrest
      simpa using hrest
    · have hne : ¬ engine = x := fun h => hx h.symm
      simpa [hx, hne] using hrest

/-! ## The run -/

/-- `run` on registered engines, where no listener raises on an event of `runEvents`. It emits these events in
this order, one for each reading of the clock, and runs the engines of `started` with the names of their rules
and the options: all of them, or those up to the first whose report is refused, which is why the run fails
then. The messages of an engine are emitted once each if and only if each kind that occurs has one forwarding
subscription. -/
theorem run_publishes {w : Workspace} {points : List String}
    (hresolved : RunOptions.resolve a.host w points = .ok o)
    (hregistered : ∀ engine ∈ selection.engineNames, engine ∈ a.engineNames)
    (hquiet : a.TakesAll (a.runEvents selection o)) :
    ∃ outcome b, (run selection w points).drive a = (outcome, b) ∧
      b.clock = a.clock + (a.runEvents selection o).length ∧
      b.heard = a.heard ++ a.bus.deliveries (stamped a.clock (a.runEvents selection o)) ∧
      (∀ engine s, a.slots.get? engine = some s → b.slots.get? engine = some
        (if engine ∈ a.started selection o selection.engineNames then
          s.asked [(namesFor selection engine, o)] else s)) ∧
      (∀ results, outcome = .ok results →
        a.started selection o selection.engineNames = selection.engineNames) ∧
      (∀ f, outcome = .error f → ∃ engine before after r,
        FirstBad (a.Accepts selection o) selection.engineNames engine ∧
          selection.engineNames = before ++ engine :: after ∧
          a.started selection o selection.engineNames = before ++ [engine] ∧
          (a.performance selection o engine).report = .ok r ∧
          ¬ r.Acceptable a.host selection engine ∧
          f.ContractUnless (r.Untold a.host selection engine)) ∧
      ∀ engine s, a.slots.get? engine = some s →
        (a.forwarded selection o engine =
            (a.performance selection o engine).messages.map (EngineMessage.toEvent engine) ↔
          ∀ m ∈ (a.performance selection o engine).messages, s.forwards m = 1) := by
  obtain ⟨outcome, b, hdrive, houtcome, hcourse⟩ := run_comesTo hresolved hregistered hquiet
  refine ⟨outcome, b, hdrive, hcourse.clock, hcourse.heard, ?_, houtcome.all, houtcome.refusal, ?_⟩
  · intro engine s hs
    have hnodup : (a.started selection o selection.engineNames).Nodup :=
      (started_sublist selection.engineNames).nodup selection.groups.keys_nodup
    rw [hcourse.slot_of hs, callsOf_startsOf hnodup]
    split
    · rfl
    · rw [Slot.asked_nil]
  · intro engine s hs
    rw [forwarded, hs]
    exact Slot.forwarded_eq_map_iff

/-- A run of two engines, of which one fails, emits eleven events. -/
theorem run_publishes_equipped :
    ∃ outcome b, (run (.ofList toolboxRules) oneFileWorkspace []).drive (equipped "/main.py") =
        (outcome, b) ∧
      b.clock = (equipped "/main.py").clock + 11 := by
  obtain ⟨outcome, b, hdrive, hclock, -⟩ := @run_publishes (equipped "/main.py") (.ofList toolboxRules)
    ⟨oneFileWorkspace, none⟩ oneFileWorkspace [] rfl (by decide) fun _ _ _ _ _ => rfl
  exact ⟨outcome, b, hdrive, hclock⟩

/-- The analyzer after `addPlugin` beside a listener that raised on `engineAdded`. That listener is gone, and
another one is subscribed to `engineLog`. -/
def unwiredEngines : Analyzer :=
  let refusing := (oneFile.listen [.log] fun _ => some (.raised .listener "Not now.")).2
  ((((addPlugin (toolbox "/main.py")).drive refusing).2.dismiss [.log] 0).listen [.engineLog] fun _ => none).2

/-- As a listener raised on `engineAdded`, the engine `probe` is registered without forwarding subscriptions:
the run delivers none of its messages. -/
theorem run_loses_messages :
    unwiredEngines.engineNames = ["probe", "broken"] ∧
      unwiredEngines.TakesAll (unwiredEngines.runEvents (.ofList toolboxRules) ⟨oneFileWorkspace, none⟩) ∧
      (unwiredEngines.performance (.ofList toolboxRules) ⟨oneFileWorkspace, none⟩ "probe").messages =
        [.log .info "Looking for tabs."] ∧
      unwiredEngines.bus.audience .engineLog = [1] ∧
      ((run (.ofList toolboxRules) oneFileWorkspace []).drive unwiredEngines).2.heardBy 1 = [] := by
  refine ⟨rfl, ?_, rfl, rfl, rfl⟩
  intro e _ tick k hk
  have haudience : ∀ t, ∀ j ∈ unwiredEngines.bus.audience t, j = 1 := by
    intro t
    cases t <;> decide
  rw [haudience e.topic k hk]
  rfl

end Analyzer

end Polyscan
