import Polyscan.Analyzer.Registry
import Polyscan.Proofs.OrderedMap
import Polyscan.Proofs.Turns

/-!
One attempt to add an engine, turn by turn. `Attempt.turn_work` says that a turn of the work either waits and
has no effect, or has the effect of the ending of the attempt. Only the ending `kept` changes the registry.
-/
namespace Polyscan

open Analyzer

/-- The slot of an engine that was just registered. Its messages are forwarded once if no listener raised on
its `engineAdded` event, and else not at all. -/
def Slot.fresh (config : EngineConfig) (engine : Engine) (taken : Bool) : Slot :=
  { engine, config, logForwards := taken.toNat, progressForwards := taken.toNat }

/-! ## Publishing leaves the registry alone -/

namespace Analyzer

theorem deliverAll_frame (p : Published LogLevel) (ks : List Nat) (a : Analyzer) :
    (deliverAll p ks a).2 = { a with heard := (deliverAll p ks a).2.heard } := by
  induction ks generalizing a with
  | nil => rfl
  | cons k rest ih =>
    unfold deliverAll
    cases hk : a.refusal k p with
    | some f => simp [hk]
    | none =>
      simp only [hk]
      rw [ih]

theorem emit_frame (e : Event LogLevel) (a : Analyzer) :
    (emit e a).2 = { a with clock := a.clock + 1, heard := (emit e a).2.heard } :=
  deliverAll_frame _ _ _

@[simp] theorem emit_slots (e : Event LogLevel) (a : Analyzer) : (emit e a).2.slots = a.slots := by
  rw [emit_frame]

@[simp] theorem say_slots (level : LogLevel) (d : Diagnostic) (a : Analyzer) :
    (say level d a).2.slots = a.slots :=
  emit_slots _ _

@[simp] theorem openPlugin_slots (p : Plugin) (a : Analyzer) : (openPlugin p a).2.slots = a.slots := by
  unfold openPlugin
  cases p.names with
  | error f => rfl
  | ok names =>
    simp only
    split
    · change ((say .warn (.futureApi p.apiVersion names) >>= fun _ => pure names :
        Effect Analyzer (List String)) a).2.slots = a.slots
      rw [Work.effect_bind, ← say_slots .warn (.futureApi p.apiVersion names) a]
      rcases say .warn (.futureApi p.apiVersion names) a with ⟨_ | _, b⟩ <;> rfl
    · rfl

theorem register_slots (name : String) (config : EngineConfig) (engine : Engine) (a : Analyzer) :
    (register name config engine a).2.slots =
      a.slots.insert name (.fresh config engine (register name config engine a).1.isOk) := by
  have hstep : register name config engine a = ((say .debug (.engineAdded name) >>= fun _ =>
      modify (adjustSlot name fun slot =>
        { slot with
          logForwards := slot.logForwards + 1
          progressForwards := slot.progressForwards + 1 }) : Effect Analyzer Unit)
      { a with slots := a.slots.insert name { engine, config } }) := rfl
  -- the engine is in its slot before the event is emitted, and its messages are forwarded only after it
  have hkept := say_slots .debug (.engineAdded name)
    { a with slots := a.slots.insert name { engine, config } }
  rw [hstep, Work.effect_bind]
  generalize say .debug (.engineAdded name) { a with slots := a.slots.insert name { engine, config } } =
    said at hkept ⊢
  obtain ⟨f | _, b⟩ := said
  · exact hkept
  · change b.slots.adjust name _ = _
    have hb : b.slots = a.slots.insert name { engine, config } := hkept
    rw [hb, OrderedMap.adjust_insert]
    rfl

end Analyzer

/-! ## Endings -/

/-- The ending of an attempt to add an engine. -/
inductive Ending where
  /-- The name was taken when the attempt began, or when its engine was made. -/
  | duplicate (made : Option Engine)
  | failed (fault : Fault)
  | nameless (fault : Fault)
  | misnamed (reported : String)
  | kept (config : EngineConfig) (engine : Engine)

namespace Ending

/-- The ending of an attempt once its engine is made, or making it has failed. -/
def ofMade (a : Analyzer) (name : String) (config : EngineConfig) : Except Fault Engine → Ending
  | .error f => .failed f
  | .ok engine =>
    match engine.reportedName with
    | .error f => .nameless f
    | .ok reported =>
      if reported ≠ name then .misnamed reported
      else if a.isRegistered name then .duplicate (some engine)
      else .kept config engine

/-- The effect of an ending. -/
def effect (name : String) : Ending → Effect Analyzer Unit
  | duplicate _ => say .error (.duplicateEngine name)
  | failed f => say .error (.createEngine name f.text)
  | nameless f => throw f
  | misnamed reported => say .error (.nameContradiction name reported)
  | kept config engine => register name config engine

/-- The engine of an ending that was made and reports the right name. -/
def engine? : Ending → Option Engine
  | duplicate made => made
  | kept _ engine => some engine
  | _ => none

theorem endAttempt_eq (a : Analyzer) (name : String) (config : EngineConfig)
    (made : Except Fault Engine) :
    endAttempt name config made a = (ofMade a name config made).effect name a := by
  unfold endAttempt ofMade
  cases made with
  | error f => rfl
  | ok engine =>
    cases hname : engine.reportedName with
    | error f =>
      simp only [hname]
      rfl
    | ok reported =>
      simp only [hname]
      split
      · rfl
      · split <;> rfl

/-- An engine is made and reports the right name if and only if the ending has it. -/
theorem engine?_ofMade {a : Analyzer} {name : String} {config : EngineConfig}
    {made : Except Fault Engine} {engine : Engine} :
    (ofMade a name config made).engine? = some engine ↔
      made = .ok engine ∧ engine.reportedName = .ok name := by
  cases made with
  | error f => simp [ofMade, engine?]
  | ok e =>
    simp only [Except.ok.injEq]
    cases hname : e.reportedName with
    | error f =>
      simp only [ofMade, hname, engine?, reduceCtorEq, false_iff, not_and]
      rintro rfl
      simp [hname]
    | ok reported =>
      simp only [ofMade, hname]
      by_cases hne : reported = name
      · subst hne
        rw [if_neg (by simp)]
        have hengine : (if a.isRegistered reported then duplicate (some e) else kept config e).engine? =
            some e := by
          split <;> rfl
        rw [hengine, Option.some.injEq]
        exact ⟨fun h => ⟨h, h ▸ hname⟩, fun h => h.1⟩
      · rw [if_pos hne]
        simp only [engine?, reduceCtorEq, false_iff, not_and]
        rintro rfl
        simp [hname, hne]

/-- An engine that reports the right name is a duplicate only if that name is registered. -/
theorem isRegistered_of_duplicate {a : Analyzer} {name : String} {config : EngineConfig}
    {made : Except Fault Engine} {engine : Option Engine}
    (h : ofMade a name config made = .duplicate engine) : a.isRegistered name = true := by
  unfold ofMade at h
  split at h
  · cases h
  · split at h
    · cases h
    · split at h
      · cases h
      · split at h
        · assumption
        · cases h

theorem not_isRegistered_of_kept {a : Analyzer} {name : String} {config config' : EngineConfig}
    {made : Except Fault Engine} {engine : Engine}
    (h : ofMade a name config made = .kept config' engine) : a.isRegistered name = false := by
  unfold ofMade at h
  split at h
  · cases h
  · split at h
    · cases h
    · split at h
      · cases h
      · split at h
        · cases h
        · simpa using ‹¬ a.isRegistered name = true›

/-- Only the ending `kept` changes the registry. -/
theorem effect_slots (name : String) (e : Ending) (a : Analyzer) :
    (e.effect name a).2.slots =
      match e with
      | kept config engine =>
        a.slots.insert name (.fresh config engine (register name config engine a).1.isOk)
      | _ => a.slots := by
  cases e with
  | kept config engine => exact register_slots name config engine a
  | nameless f => rfl
  | _ => exact say_slots _ _ _

end Ending

/-! ## Turns -/

/-- The phase of an attempt. An engine that is being made is finished after one wait and the given number of
others. -/
inductive Phase where
  | ready (p : Plugin)
  | making (config : EngineConfig) (rounds : Nat) (made : Except Fault Engine)
  | ended (result : Except Fault Unit)

/-- An attempt to add the engine of a name. -/
structure Attempt where
  name : String
  phase : Phase

namespace Attempt

/-- The work of waiting for an engine and ending the attempt. -/
def waiting (name : String) (config : EngineConfig) (rounds : Nat) (made : Except Fault Engine) :
    Work Analyzer Unit :=
  (Delayed.await { rounds, outcome := made }).attempt.bind fun made =>
    Work.now (endAttempt name config made)

/-- The rest of the work of an attempt. -/
def work (x : Attempt) : Work Analyzer Unit :=
  match x.phase with
  | .ready p => addEngine p x.name
  | .making config rounds made => waiting x.name config (rounds + 1) made
  | .ended result => .done result

/-- The attempt begins while its name is registered. -/
def isRefused (x : Attempt) (a : Analyzer) : Bool :=
  match x.phase with
  | .ready _ => a.isRegistered x.name
  | _ => false

/-- The engine that is made in the next turn, or the failure of making it. -/
def made? (x : Attempt) (a : Analyzer) : Option (EngineConfig × Except Fault Engine) :=
  match x.phase with
  | .ready p =>
    let config := a.config.engine x.name
    let making := p.make x.name config
    if a.isRegistered x.name || making.rounds ≠ 0 then none else some (config, making.outcome)
  | .making config 0 made => some (config, made)
  | _ => none

/-- The ending of the attempt in its next turn, if that is the last one. -/
def ending? (x : Attempt) (a : Analyzer) : Option Ending :=
  if x.isRefused a then some (.duplicate none)
  else (x.made? a).map fun (config, made) => .ofMade a x.name config made

/-- The engine that is made in the next turn, if it reports the name of the attempt. -/
def completion? (x : Attempt) (a : Analyzer) : Option Engine :=
  match x.made? a with
  | some (_, .ok engine) =>
    match engine.reportedName with
    | .ok reported => if reported = x.name then some engine else none
    | .error _ => none
  | _ => none

/-- The attempt after its next turn. -/
def after (x : Attempt) (a : Analyzer) : Attempt :=
  match x.ending? a with
  | some e => { x with phase := .ended (e.effect x.name a).1 }
  | none =>
    match x.phase with
    | .ready p =>
      let config := a.config.engine x.name
      let making := p.make x.name config
      { x with phase := .making config (making.rounds - 1) making.outcome }
    | .making config rounds made => { x with phase := .making config (rounds - 1) made }
    | .ended _ => x

variable {x : Attempt} {a : Analyzer} {e : Ending}

theorem ending?_cases (he : x.ending? a = some e) :
    e = .duplicate none ∧ a.isRegistered x.name = true ∨
      ∃ config made, x.made? a = some (config, made) ∧ e = .ofMade a x.name config made := by
  unfold ending? at he
  split at he
  · next hrefused =>
    cases he
    refine .inl ⟨rfl, ?_⟩
    unfold isRefused at hrefused
    split at hrefused
    · exact hrefused
    · cases hrefused
  · obtain ⟨⟨config, made⟩, hmade, rfl⟩ := Option.map_eq_some_iff.mp he
    exact .inr ⟨config, made, hmade, rfl⟩

theorem isRegistered_of_duplicate {engine : Option Engine} (he : x.ending? a = some (.duplicate engine)) :
    a.isRegistered x.name = true := by
  rcases ending?_cases he with ⟨-, hregistered⟩ | ⟨config, made, -, hmade⟩
  · exact hregistered
  · exact Ending.isRegistered_of_duplicate hmade.symm

theorem not_isRegistered_of_kept {config : EngineConfig} {engine : Engine}
    (he : x.ending? a = some (.kept config engine)) : a.isRegistered x.name = false := by
  rcases ending?_cases he with ⟨h, -⟩ | ⟨config', made, -, hmade⟩
  · cases h
  · exact Ending.not_isRegistered_of_kept hmade.symm

theorem completion?_eq_some_iff {engine : Engine} :
    x.completion? a = some engine ↔
      (∃ config, x.made? a = some (config, .ok engine)) ∧ engine.reportedName = .ok x.name := by
  unfold completion?
  rcases x.made? a with _ | ⟨config, f | e⟩
  · simp
  · simp
  · cases hname : e.reportedName with
    | error f =>
      simp only [hname, reduceCtorEq, Option.some.injEq, Prod.mk.injEq, Except.ok.injEq, false_iff, not_and]
      intro hmade
      obtain ⟨config', -, rfl⟩ := hmade
      simp [hname]
    | ok reported =>
      simp only [hname, Option.some.injEq, Prod.mk.injEq, Except.ok.injEq]
      by_cases heq : reported = x.name
      · rw [if_pos heq, Option.some.injEq]
        constructor
        · rintro rfl
          exact ⟨⟨config, rfl, rfl⟩, heq ▸ hname⟩
        · intro hmade
          obtain ⟨⟨config', -, rfl⟩, -⟩ := hmade
          rfl
      · simp only [heq, if_false, reduceCtorEq, false_iff]
        intro hmade
        obtain ⟨⟨config', -, rfl⟩, h⟩ := hmade
        rw [hname] at h
        exact heq (Except.ok.inj h)

theorem made?_of_isRefused (hx : x.isRefused a = true) : x.made? a = none := by
  unfold isRefused at hx
  unfold made?
  split at hx
  · next p hp => simp [hp, hx]
  · cases hx

/-- The completed engine is the one of the ending. -/
theorem completion?_eq : x.completion? a = (x.ending? a).bind Ending.engine? := by
  apply Option.ext
  intro engine
  rw [completion?_eq_some_iff]
  unfold ending?
  split
  · next hrefused => simp [made?_of_isRefused hrefused, Ending.engine?]
  · cases hmade : x.made? a with
    | none => simp
    | some pair =>
      simp only [Option.map_some, Option.bind_some, Ending.engine?_ofMade, Option.some.injEq, Prod.ext_iff]
      simp

theorem ending?_of_ended {result : Except Fault Unit} (hx : x.phase = .ended result) :
    x.ending? a = none := by
  simp [ending?, isRefused, made?, hx]

theorem after_of_ended {result : Except Fault Unit} (hx : x.phase = .ended result) : x.after a = x := by
  simp [after, ending?_of_ended hx, hx]

theorem resume_waiting (name : String) (config : EngineConfig) (rounds : Nat)
    (made : Except Fault Engine) (a : Analyzer) :
    (waiting name config rounds made).resume a =
      if rounds = 0 then (.done (endAttempt name config made a).1, (endAttempt name config made a).2)
      else (waiting name config rounds made, a) := by
  cases rounds <;> rfl

/-- A turn of the work has the effect of the ending if the attempt ends in it, and else no effect. -/
theorem turn_work (x : Attempt) (a : Analyzer) :
    x.work.turn a =
      ((x.after a).work,
        match x.ending? a with
        | some e => (e.effect x.name a).2
        | none => a) := by
  obtain ⟨name, phase⟩ := x
  cases phase with
  | ready p =>
    change ((Work.now (beginAttempt p name)).bind _).resume a = _
    rw [Work.resume_now_bind]
    -- the attempt ends at once if the name is taken, and in the same turn if its engine takes no rounds
    by_cases hregistered : a.isRegistered name
    · have hending : ending? ⟨name, .ready p⟩ a = some (.duplicate none) := by
        simp [ending?, isRefused, hregistered]
      have hbegin : beginAttempt p name a =
          ((say .error (.duplicateEngine name) >>= fun _ => pure none) : Effect Analyzer _) a := by
        simp only [beginAttempt, hregistered, if_true]
      simp only [after, hending, Ending.effect, work]
      rw [hbegin, Work.effect_bind]
      rcases say .error (.duplicateEngine name) a with ⟨f | _, b⟩ <;> rfl
    · have hbegin : beginAttempt p name a =
          (.ok (some (a.config.engine name, p.make name (a.config.engine name))), a) := by
        simp [beginAttempt, hregistered]
      rw [hbegin]
      change (waiting name _ (p.make name (a.config.engine name)).rounds _).resume a = _
      rw [resume_waiting]
      cases hrounds : (p.make name (a.config.engine name)).rounds with
      | zero =>
        simp [ending?, after, isRefused, made?, work, hregistered, hrounds, Ending.endAttempt_eq]
      | succ n => simp [ending?, after, isRefused, made?, work, hregistered, hrounds]
  | making config rounds made =>
    change (waiting name config rounds made).resume a = _
    rw [resume_waiting]
    cases rounds with
    | zero => simp [ending?, after, isRefused, made?, work, Ending.endAttempt_eq]
    | succ n => simp [ending?, after, isRefused, made?, work]
  | ended result => rfl

end Attempt

end Polyscan
