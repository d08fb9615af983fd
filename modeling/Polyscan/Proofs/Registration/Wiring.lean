import Mathlib.Data.List.Induction
import Polyscan.Proofs.Delivery
import Polyscan.Proofs.Performance
import Polyscan.Proofs.Registration.History

/-!
Wiring of registered engines. The messages of an engine are forwarded from the moment at which its
`engineAdded` event was emitted; if a listener raises on that event, the engine is registered but its messages
are never forwarded. Listeners may change between any two moves.
-/
namespace Polyscan

open Analyzer

/-- The event that an engine was added. -/
def addedEvent (name : String) : Event LogLevel := .log .debug (Diagnostic.engineAdded name).text

namespace Analyzer

/-! ## Passing on messages -/

variable {a : Analyzer} {name : String} {s : Slot}

theorem forward_of_slot (hs : a.slots.get? name = some s) (m : EngineMessage) :
    forward name m a = emitTimes (m.toEvent name) (s.forwards m) a := by
  have hslot : slot name a = (.ok s, a) := by
    unfold slot
    rw [hs]
  unfold forward
  rw [Work.effect_bind, hslot]
  cases m <;> rfl

/-- A message with one forwarding subscription is emitted once. -/
theorem forward_once (hs : a.slots.get? name = some s) {m : EngineMessage} (hm : s.forwards m = 1) :
    forward name m a = emit (m.toEvent name) a := by
  rw [forward_of_slot hs, hm]
  show (emit (m.toEvent name) >>= fun _ => pure ()) a = _
  rw [Work.effect_bind]
  rcases emit (m.toEvent name) a with ⟨_ | _, b⟩ <;> rfl

/-- A message without forwarding subscriptions is lost. -/
theorem forward_never (hs : a.slots.get? name = some s) {m : EngineMessage} (hm : s.forwards m = 0) :
    forward name m a = (.ok (), a) := by
  rw [forward_of_slot hs, hm]
  rfl

/-- `forward` fails for an engine that is not registered. -/
theorem forward_unregistered (hname : name ∉ a.engineNames) (m : EngineMessage) :
    forward name m a = (.error (.unknown name), a) := by
  have hslot : slot name a = (.error (.unknown name), a) := by
    unfold slot
    rw [OrderedMap.get?_eq_none_iff.mpr hname]
  unfold forward
  rw [Work.effect_bind, hslot]

/-! ## Registering -/

/-- `register` succeeds if and only if no listener raises on the event. -/
theorem register_isOk_iff {config : EngineConfig} {engine : Engine} :
    (register name config engine a).1.isOk = true ↔ a.TakesNow (addedEvent name) := by
  have hstep : register name config engine a = (emit (addedEvent name) >>= fun _ =>
      modify (adjustSlot name fun slot =>
        { slot with
          logForwards := slot.logForwards + 1
          progressForwards := slot.progressForwards + 1 }) : Effect Analyzer Unit)
      { a with slots := a.slots.insert name { engine, config } } := rfl
  rw [hstep, Work.effect_bind, emit_eq, TakesNow, ← refusalOf_eq_none_iff]
  show _ ↔ refusalOf { a with slots := a.slots.insert name { engine, config } } ⟨a.clock, addedEvent name⟩ = none
  cases refusalOf { a with slots := a.slots.insert name { engine, config } } ⟨a.clock, addedEvent name⟩ with
  | none =>
    constructor
    · intro _
      rfl
    · intro _
      rfl
  | some f =>
    constructor
    · intro h
      cases h
    · intro h
      cases h

end Analyzer

/-- The messages of the engine are forwarded once each if no listener raised on the event, and else not at
all. -/
def Slot.Wired (s : Slot) (taken : Prop) : Prop :=
  taken ∧ s.logForwards = 1 ∧ s.progressForwards = 1 ∨
    ¬ taken ∧ s.logForwards = 0 ∧ s.progressForwards = 0

theorem Slot.wired_fresh {config : EngineConfig} {engine : Engine} {success : Bool} {taken : Prop}
    (h : success = true ↔ taken) : (Slot.fresh config engine success).Wired taken := by
  cases success with
  | true => exact .inl ⟨h.mp rfl, rfl, rfl⟩
  | false =>
    refine .inr ⟨fun ht => ?_, rfl, rfl⟩
    cases h.mpr ht

/-! ## Histories -/

/-- A step: a move of a registration, or a change of the listeners. -/
inductive WiringMove where
  | move (m : Move)
  | listeners (bus : Bus Nat) (refusal : Nat → Published LogLevel → Option Fault)

namespace Registering

def perform (st : Registering) : WiringMove → Registering
  | .move m => st.step m
  | .listeners bus refusal => { st with analyzer := { st.analyzer with bus, refusal } }

def live (st : Registering) (hs : List WiringMove) : Registering := hs.foldl perform st

variable {st : Registering} {name : String} {s : Slot}

theorem live_snoc (st : Registering) (hs : List WiringMove) (h : WiringMove) :
    st.live (hs ++ [h]) = (st.live hs).perform h := by
  show List.foldl perform st (hs ++ [h]) = _
  rw [List.foldl_append]
  rfl

theorem slot_lasts_perform (hs : st.analyzer.slots.get? name = some s) (h : WiringMove) :
    (st.perform h).analyzer.slots.get? name = some s := by
  cases h with
  | move m => exact slot_lasts_step hs m
  | listeners bus refusal => exact hs

/-- An engine that is new after a turn belongs to an attempt that was kept in this turn. -/
theorem turn_new {i : Nat} (hnew : name ∉ st.analyzer.engineNames)
    (hs : (st.turn i).analyzer.slots.get? name = some s) : s.Wired (st.analyzer.TakesNow (addedEvent name)) := by
  have hnone : st.analyzer.slots.get? name = none := OrderedMap.get?_eq_none_iff.mpr hnew
  cases hx : st.attempts[i]? with
  | none =>
    rw [turn_of_none hx, hnone] at hs
    cases hs
  | some x =>
    cases he : x.ending? st.analyzer with
    | none =>
      rw [turn_of_waiting hx he] at hs
      rw [show st.analyzer.slots.get? name = some s from hs] at hnone
      cases hnone
    | some e =>
      rw [turn_of_ending hx he] at hs
      change (e.effect x.name st.analyzer).2.slots.get? name = some s at hs
      rw [e.effect_slots] at hs
      -- only an attempt that is kept puts an engine into the registry, and only under its own name
      cases e with
      | kept config engine =>
        simp only [OrderedMap.get?_insert] at hs
        by_cases hname : x.name = name
        · subst hname
          rw [if_pos rfl] at hs
          cases hs
          exact Slot.wired_fresh register_isOk_iff
        · rw [if_neg hname, hnone] at hs
          cases hs
      | _ =>
        rw [show st.analyzer.slots.get? name = some s from hs] at hnone
        cases hnone

/-- An engine that is new after a step is wired if no listener raised on its event. -/
theorem perform_new {h : WiringMove} (hnew : name ∉ st.analyzer.engineNames)
    (hs : (st.perform h).analyzer.slots.get? name = some s) :
    s.Wired (st.analyzer.TakesNow (addedEvent name)) := by
  have hnone : st.analyzer.slots.get? name = none := OrderedMap.get?_eq_none_iff.mpr hnew
  cases h with
  | move m =>
    cases m with
    | call p makes =>
      change (openPlugin p st.analyzer).2.slots.get? name = some s at hs
      rw [openPlugin_slots, hnone] at hs
      cases hs
    | turn i => exact turn_new hnew hs
  | listeners bus refusal =>
    change st.analyzer.slots.get? name = some s at hs
    rw [hnone] at hs
    cases hs

/-- Every engine was registered in some step, and its wiring has not changed since. -/
theorem wired_of_live (a : Analyzer) {hs : List WiringMove}
    (hslot : ((start a).live hs).analyzer.slots.get? name = some s) :
    ∃ before h after, hs = before ++ h :: after ∧
      name ∉ ((start a).live before).analyzer.engineNames ∧
      name ∈ ((start a).live (before ++ [h])).analyzer.engineNames ∧
      s.Wired (((start a).live before).analyzer.TakesNow (addedEvent name)) := by
  induction hs using List.reverseRecOn with
  | nil => cases hslot
  | append_singleton hs h ih =>
    rw [live_snoc] at hslot
    by_cases hmem : name ∈ ((start a).live hs).analyzer.engineNames
    · -- the engine was there before, and what it was like then it is still
      obtain ⟨s', hs'⟩ := OrderedMap.mem_keys_iff.mp hmem
      have hsame := slot_lasts_perform hs' h
      rw [hslot] at hsame
      cases hsame
      obtain ⟨before, h', after, hsplit, hnew, hthere, hwired⟩ := ih hs'
      refine ⟨before, h', after ++ [h], ?_, hnew, hthere, hwired⟩
      rw [hsplit, List.append_assoc, List.cons_append]
    · refine ⟨hs, h, [], rfl, hmem, ?_, perform_new hmem hslot⟩
      rw [live_snoc]
      exact OrderedMap.mem_keys_iff.mpr ⟨s, hslot⟩

/-- Wiring of engines under every sequence of `addPlugin` calls, turns of attempts and changes of the
listeners. Each registered engine was registered in one step. If no listener then raised on its `engineAdded`
event, `forward` emits each message of the engine once under its name, and else `forward` emits none of them.
For a name that is not registered `forward` fails and emits nothing. -/
theorem registration_wires (a : Analyzer) (hs : List WiringMove) :
    (∀ name s, ((start a).live hs).analyzer.slots.get? name = some s →
      ∃ before h after, hs = before ++ h :: after ∧
        name ∉ ((start a).live before).analyzer.engineNames ∧
        name ∈ ((start a).live (before ++ [h])).analyzer.engineNames ∧
        (((start a).live before).analyzer.TakesNow (addedEvent name) →
          s.logForwards = 1 ∧ s.progressForwards = 1 ∧
            ∀ m, forward name m ((start a).live hs).analyzer =
              emit (m.toEvent name) ((start a).live hs).analyzer) ∧
        (¬ ((start a).live before).analyzer.TakesNow (addedEvent name) →
          s.logForwards = 0 ∧ s.progressForwards = 0 ∧
            ∀ m, forward name m ((start a).live hs).analyzer =
              (.ok (), ((start a).live hs).analyzer))) ∧
      ∀ name, name ∉ ((start a).live hs).analyzer.engineNames →
        ∀ m, forward name m ((start a).live hs).analyzer =
          (.error (.unknown name), ((start a).live hs).analyzer) := by
  refine ⟨?_, fun name hname m => forward_unregistered hname m⟩
  intro name s hslot
  obtain ⟨before, h, after, hsplit, hnew, hthere, hwired⟩ := wired_of_live a hslot
  refine ⟨before, h, after, hsplit, hnew, hthere, ?_⟩
  rcases hwired with ⟨htaken, hlog, hprogress⟩ | ⟨hrefused, hlog, hprogress⟩
  · refine ⟨fun _ => ⟨hlog, hprogress, fun m => forward_once hslot ?_⟩, fun hnot => absurd htaken hnot⟩
    cases m
    · exact hlog
    · exact hprogress
  · refine ⟨fun htaken => absurd htaken hrefused, fun _ => ⟨hlog, hprogress, fun m => forward_never hslot ?_⟩⟩
    cases m
    · exact hlog
    · exact hprogress

/-! ## A refused registration -/

/-- A plugin with one engine that has nothing to report. -/
def lonePlugin : Plugin where
  names := .ok ["lone"]
  make _ _ :=
    { outcome := .ok (.external
        { name := .ok "lone"
          describe := fun _ => { outcome := .ok (.arr []) }
          run := fun _ _ => { report := .ok (.findings []) } }) }

/-- A listener to the log raises while the engine of the plugin is registered; then it is gone. -/
def refusedRegistration : List WiringMove :=
  [.listeners ⟨[(.log, 0)]⟩ fun _ _ => some (.raised .listener "Not now."),
    .move (.call lonePlugin fun _ => lonePlugin.make), .move (.turn 0), .listeners {} fun _ _ => none]

/-- A listener raised on `engineAdded`, so the engine is registered but its messages are lost, although no
listener is left that would raise on them. -/
theorem registration_loses_messages :
    let b := ((start { host := ⟨.folder [], [], "/home/user", []⟩ }).live refusedRegistration).analyzer
    b.engineNames = ["lone"] ∧ (b.slots.get? "lone").map Slot.logForwards = some 0 ∧
      (∀ e, b.Takes e) ∧ forward "lone" (.log .info "Done.") b = (.ok (), b) := by
  refine ⟨rfl, rfl, ?_, rfl⟩
  intro e tick k hk
  cases hk

end Registering

end Polyscan
