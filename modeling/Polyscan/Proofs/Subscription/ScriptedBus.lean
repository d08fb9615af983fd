import Polyscan.Proofs.Subscription.History

/-!
A bus whose listeners run scripts during an emission. A script subscribes and unsubscribes listeners, emits
further events, reads and writes a shared memory, and returns or raises. The log of a `ScriptedBus` records
every step, so that delivery can be stated about it.

Emissions may be nested up to a depth only; `playAll_of_le` says that the limit makes no difference where it
is not reached. `emit` calls the listeners as `Scene.perform` does, and `perform_eq` says that a `Scene` is a
scripted bus whose listeners perform one act each.
-/
namespace Polyscan

/-- A program that acts on a bus. Each step may depend on the outcomes of the steps before it and on the
memory, and a failed step need not end the script. -/
inductive Script (κ ℓ σ : Type) where
  | returns
  | raises (fault : Fault)
  | consult (next : σ → Script κ ℓ σ)
  | note (change : σ → σ) (next : Script κ ℓ σ)
  | subscribe (topic : String) (listener : κ) (next : Except Fault Topic → Script κ ℓ σ)
  | unsubscribe (topic : Topic) (listener : κ) (next : Script κ ℓ σ)
  | publish (event : Event ℓ) (next : Except Fault Unit → Script κ ℓ σ)

/-- A step of a scripted bus: a subscription is made or cancelled; an event takes its reading of the clock; a
listener to which it is delivered returns or raises; the emission ends with its outcome; or an emission is
refused because it is nested too deep. -/
inductive Incident (κ ℓ : Type) where
  | subscribed (topic : Topic) (listener : κ)
  | cancelled (topic : Topic) (listener : κ)
  | published (event : Published ℓ)
  | answered (listener : κ) (event : Published ℓ) (outcome : Except Fault Unit)
  | settled (event : Published ℓ) (outcome : Except Fault Unit)
  | cutOff (event : Event ℓ)

namespace Incident

variable {κ ℓ : Type}

def subscription? : Incident κ ℓ → Option (Topic × κ)
  | subscribed t k => some (t, k)
  | _ => none

def cancellation? : Incident κ ℓ → Option (Topic × κ)
  | cancelled t k => some (t, k)
  | _ => none

def publication? : Incident κ ℓ → Option (Published ℓ)
  | published p => some p
  | _ => none

/-- The return of a listener from the event with a reading of the clock. -/
def answer? (tick : Nat) : Incident κ ℓ → Option (κ × Published ℓ × Except Fault Unit)
  | answered k p outcome => if p.tick = tick then some (k, p, outcome) else none
  | _ => none

end Incident

/-- A bus with its clock, the shared memory of scripts, and the log of all steps. -/
structure ScriptedBus (κ ℓ σ : Type) where
  bus : Bus κ := {}
  clock : Nat := 0
  memory : σ
  log : List (Incident κ ℓ) := []

namespace ScriptedBus

variable {κ ℓ σ : Type}

/-- An effect on a scripted bus that may fail; what happened before a failure stays. -/
abbrev Doing (κ ℓ σ : Type) := ScriptedBus κ ℓ σ → Except Fault Unit × ScriptedBus κ ℓ σ

def enter (f : ScriptedBus κ ℓ σ) (i : Incident κ ℓ) : ScriptedBus κ ℓ σ := { f with log := f.log ++ [i] }

def subscribe (f : ScriptedBus κ ℓ σ) (t : Topic) (k : κ) : ScriptedBus κ ℓ σ :=
  { f with bus := f.bus.subscribe t k, log := f.log ++ [.subscribed t k] }

def unsubscribe [DecidableEq κ] (f : ScriptedBus κ ℓ σ) (t : Topic) (k : κ) : ScriptedBus κ ℓ σ :=
  { f with bus := f.bus.unsubscribe t k, log := f.log ++ [.cancelled t k] }

/-- Takes the reading of the clock for an event. -/
def stamp (f : ScriptedBus κ ℓ σ) (e : Event ℓ) : ScriptedBus κ ℓ σ :=
  { f with clock := f.clock + 1, log := f.log ++ [.published ⟨f.clock, e⟩] }

/-- Delivers an event to listeners one after another, up to the first that raises. -/
def deliverAll (deliver : κ → Doing κ ℓ σ) : List κ → Doing κ ℓ σ
  | [], f => (.ok (), f)
  | k :: rest, f =>
    match deliver k f with
    | (.ok (), f') => deliverAll deliver rest f'
    | (.error e, f') => (.error e, f')

end ScriptedBus

/-- Runs a script, given the effect of an emission. -/
def Script.play {κ ℓ σ : Type} [DecidableEq κ] (emit : Event ℓ → ScriptedBus.Doing κ ℓ σ) :
    Script κ ℓ σ → ScriptedBus.Doing κ ℓ σ
  | .returns, f => (.ok (), f)
  | .raises e, f => (.error e, f)
  | .consult next, f => (next f.memory).play emit f
  | .note change next, f => next.play emit { f with memory := change f.memory }
  | .subscribe name k next, f =>
    match Topic.ofName name with
    | .error e => (next (.error e)).play emit f
    | .ok t => (next (.ok t)).play emit (f.subscribe t k)
  | .unsubscribe t k next, f => next.play emit (f.unsubscribe t k)
  | .publish e next, f => (next (emit e f).1).play emit (emit e f).2

namespace ScriptedBus

variable {κ ℓ σ : Type} [DecidableEq κ]

/-- Delivers an event to one listener, which runs its script. -/
def deliver (emit : Event ℓ → Doing κ ℓ σ) (script : κ → Published ℓ → Script κ ℓ σ) (p : Published ℓ) (k : κ) :
    Doing κ ℓ σ := fun f =>
  let done := (script k p).play emit f
  (done.1, done.2.enter (.answered k p done.1))

/-- Emits an event. Emissions are nested at most `depth` levels deep; one that would be deeper fails. -/
def emit (script : κ → Published ℓ → Script κ ℓ σ) : Nat → Event ℓ → Doing κ ℓ σ
  | 0, e, f => (.error Scene.endless, f.enter (.cutOff e))
  | depth + 1, e, f =>
    let delivered :=
      deliverAll (deliver (emit script depth) script ⟨f.clock, e⟩) (f.bus.audience e.topic) (f.stamp e)
    (delivered.1, delivered.2.enter (.settled ⟨f.clock, e⟩ delivered.1))

/-- Runs scripts one after another, whether or not they raise. -/
def playAll (emit : Event ℓ → Doing κ ℓ σ) (scripts : List (Script κ ℓ σ)) (f : ScriptedBus κ ℓ σ) :
    ScriptedBus κ ℓ σ :=
  scripts.foldl (fun f s => (s.play emit f).2) f

end ScriptedBus

/-! ## Depth of emissions -/

namespace ScriptedBus

variable {κ ℓ σ : Type}

/-- No emission was refused for its depth. -/
def Unbroken (log : List (Incident κ ℓ)) : Prop := ∀ e, .cutOff e ∉ log

theorem Unbroken.of_prefix {log more : List (Incident κ ℓ)} (h : Unbroken more) (hlog : log <+: more) :
    Unbroken log := fun e he => h e (hlog.subset he)

variable [DecidableEq κ] {publish publish' : Event ℓ → Doing κ ℓ σ}

section Growth

variable (hgrows : ∀ e f, f.log <+: (publish e f).2.log)
include hgrows

theorem log_prefix_play (s : Script κ ℓ σ) (f : ScriptedBus κ ℓ σ) : f.log <+: (s.play publish f).2.log := by
  induction s generalizing f with
  | returns => exact List.prefix_rfl
  | raises e => exact List.prefix_rfl
  | consult next ih => exact ih f.memory f
  | note change next ih => exact ih { f with memory := change f.memory }
  | subscribe name k next ih =>
    rw [Script.play]
    cases Topic.ofName name with
    | error e => exact ih (.error e) f
    | ok t => exact (List.prefix_append _ _).trans (ih (.ok t) (f.subscribe t k))
  | unsubscribe t k next ih => exact (List.prefix_append _ _).trans (ih (f.unsubscribe t k))
  | publish e next ih => exact (hgrows e f).trans (ih _ _)

theorem log_prefix_deliver (script : κ → Published ℓ → Script κ ℓ σ) (p : Published ℓ) (k : κ)
    (f : ScriptedBus κ ℓ σ) : f.log <+: (deliver publish script p k f).2.log :=
  (log_prefix_play hgrows (script k p) f).trans (List.prefix_append _ _)

theorem log_prefix_deliverAll (script : κ → Published ℓ → Script κ ℓ σ) (p : Published ℓ) (ks : List κ)
    (f : ScriptedBus κ ℓ σ) : f.log <+: (deliverAll (deliver publish script p) ks f).2.log := by
  induction ks generalizing f with
  | nil => exact List.prefix_rfl
  | cons k rest ih =>
    have hk := log_prefix_deliver hgrows script p k f
    rw [deliverAll]
    rcases heq : deliver publish script p k f with ⟨e | ⟨⟩, f'⟩
    all_goals rw [heq] at hk
    · exact hk
    · exact hk.trans (ih f')

end Growth

theorem log_prefix_emit (script : κ → Published ℓ → Script κ ℓ σ) (depth : Nat) (e : Event ℓ)
    (f : ScriptedBus κ ℓ σ) : f.log <+: (emit script depth e f).2.log := by
  induction depth generalizing e f with
  | zero => exact List.prefix_append _ _
  | succ depth ih =>
    have hstamped : f.log <+: (f.stamp e).log := List.prefix_append _ _
    have hemitted := log_prefix_deliverAll ih script ⟨f.clock, e⟩ (f.bus.audience e.topic) (f.stamp e)
    exact (hstamped.trans hemitted).trans (List.prefix_append _ _)

section Deeper

variable (hgrows : ∀ e f, f.log <+: (publish e f).2.log)
  (hsame : ∀ e f, Unbroken (publish e f).2.log → publish' e f = publish e f)
include hgrows hsame

theorem play_eq_of_unbroken (s : Script κ ℓ σ) {f : ScriptedBus κ ℓ σ}
    (h : Unbroken (s.play publish f).2.log) : s.play publish' f = s.play publish f := by
  induction s generalizing f with
  | returns => rfl
  | raises e => rfl
  | consult next ih => exact ih f.memory h
  | note change next ih => exact ih h
  | subscribe name k next ih =>
    rw [Script.play] at h ⊢
    rw [Script.play]
    cases hname : Topic.ofName name with
    | error e =>
      rw [hname] at h
      exact ih (.error e) h
    | ok t =>
      rw [hname] at h
      exact ih (.ok t) h
  | unsubscribe t k next ih => exact ih h
  | publish e next ih =>
    have hfirst : Unbroken (publish e f).2.log := h.of_prefix (log_prefix_play hgrows _ _)
    rw [Script.play, Script.play, hsame e f hfirst]
    exact ih _ h

theorem deliverAll_eq_of_unbroken (script : κ → Published ℓ → Script κ ℓ σ) (p : Published ℓ) (ks : List κ)
    {f : ScriptedBus κ ℓ σ} (h : Unbroken (deliverAll (deliver publish script p) ks f).2.log) :
    deliverAll (deliver publish' script p) ks f = deliverAll (deliver publish script p) ks f := by
  induction ks generalizing f with
  | nil => rfl
  | cons k rest ih =>
    have hemitted : Unbroken (deliver publish script p k f).2.log := by
      refine h.of_prefix ?_
      rw [deliverAll]
      rcases deliver publish script p k f with ⟨e | ⟨⟩, f'⟩
      · exact List.prefix_rfl
      · exact log_prefix_deliverAll hgrows script p rest f'
    have hplayed : Unbroken ((script k p).play publish f).2.log :=
      hemitted.of_prefix (List.prefix_append _ _)
    have hk : deliver publish' script p k f = deliver publish script p k f := by
      rw [deliver, deliver, play_eq_of_unbroken hgrows hsame _ hplayed]
    rw [deliverAll] at h ⊢
    rw [deliverAll, hk]
    rcases heq : deliver publish script p k f with ⟨e | ⟨⟩, f'⟩
    · rfl
    · rw [heq] at h
      exact ih h

end Deeper

variable {script : κ → Published ℓ → Script κ ℓ σ}

theorem emit_succ_of_unbroken {depth : Nat} {e : Event ℓ} {f : ScriptedBus κ ℓ σ}
    (h : Unbroken (emit script depth e f).2.log) : emit script (depth + 1) e f = emit script depth e f := by
  induction depth generalizing e f with
  | zero => exact absurd (List.mem_append_right f.log List.mem_cons_self) (h e)
  | succ depth ih =>
    have hemitted := deliverAll_eq_of_unbroken (log_prefix_emit script depth) (fun _ _ => ih) script
      ⟨f.clock, e⟩ (f.bus.audience e.topic) (f := f.stamp e) (h.of_prefix (List.prefix_append _ _))
    rw [emit, hemitted, emit]

/-- If no emission was refused for its depth, a greater depth makes no difference. -/
theorem emit_of_le {depth deeper : Nat} (hle : depth ≤ deeper) {e : Event ℓ} {f : ScriptedBus κ ℓ σ}
    (h : Unbroken (emit script depth e f).2.log) : emit script deeper e f = emit script depth e f := by
  induction hle with
  | refl => rfl
  | step _ ih =>
    rw [emit_succ_of_unbroken, ih]
    rw [ih]
    exact h

theorem log_prefix_playAll (depth : Nat) (scripts : List (Script κ ℓ σ)) (f : ScriptedBus κ ℓ σ) :
    f.log <+: (playAll (emit script depth) scripts f).log := by
  induction scripts generalizing f with
  | nil => exact List.prefix_rfl
  | cons s rest ih => exact (log_prefix_play (log_prefix_emit script depth) s f).trans (ih _)

theorem playAll_of_le {depth deeper : Nat} (hle : depth ≤ deeper) (scripts : List (Script κ ℓ σ))
    {f : ScriptedBus κ ℓ σ} (h : Unbroken (playAll (emit script depth) scripts f).log) :
    playAll (emit script deeper) scripts f = playAll (emit script depth) scripts f := by
  induction scripts generalizing f with
  | nil => rfl
  | cons s rest ih =>
    have hfirst : Unbroken (s.play (emit script depth) f).2.log :=
      h.of_prefix (log_prefix_playAll depth rest _)
    have hs := play_eq_of_unbroken (log_prefix_emit script depth) (fun _ _ => emit_of_le hle) s hfirst
    rw [playAll, List.foldl_cons, hs]
    exact ih h

end ScriptedBus

/-! ## Scenes as scripted buses -/

/-- The script of an act. The memory is a scene whose own bus and clock are not used. -/
def Act.script {ℓ : Type} : Act ℓ → Script String ℓ (Scene ℓ)
  | .subscribe handle listener topic reaction =>
    .note (·.introduce listener reaction) <| .subscribe topic listener fun
      | .error e => .raises e
      | .ok t =>
        .note (fun s => { s with handles := OrderedMap.put handle (t, listener) s.handles }) .returns
  | .unsubscribe handle =>
    .consult fun s =>
      match OrderedMap.find handle s.handles with
      | none => .raises (.unknown handle)
      | some (t, listener) => .unsubscribe t listener .returns
  | .fail e => .raises e
  | .publish event =>
    .publish event fun
      | .error e => .raises e
      | .ok () => .returns

namespace Scene

variable {ℓ : Type}

/-- The script of a listener of a scene: it records the event and reacts. -/
def listenerScript (k : String) (p : Published ℓ) : Script String ℓ (Scene ℓ) :=
  .note (·.record k p) <| .consult fun s =>
    match s.reaction? k with
    | some a => a.script
    | none => .returns

def ofScripted (f : ScriptedBus String ℓ (Scene ℓ)) : Scene ℓ := { f.memory with bus := f.bus, clock := f.clock }

variable {f : ScriptedBus String ℓ (Scene ℓ)}

theorem introduce_ofForum (listener : String) (reaction : Option (Act ℓ)) :
    (ofScripted f).introduce listener reaction =
      ofScripted { f with memory := f.memory.introduce listener reaction } := by
  by_cases h : (OrderedMap.find listener f.memory.reactions).isSome <;> simp [introduce, ofScripted, h]

theorem deliverAll_eq {deliver : String → Effect ℓ} {deliver' : String → ScriptedBus.Doing String ℓ (Scene ℓ)}
    (h : ∀ k f, deliver k (ofScripted f) = ((deliver' k f).1, ofScripted (deliver' k f).2)) (ks : List String) :
    deliverAll deliver ks (ofScripted f) =
      ((ScriptedBus.deliverAll deliver' ks f).1, ofScripted (ScriptedBus.deliverAll deliver' ks f).2) := by
  induction ks generalizing f with
  | nil => rfl
  | cons k rest ih =>
    rw [deliverAll, h, ScriptedBus.deliverAll]
    rcases deliver' k f with ⟨e | ⟨⟩, f'⟩
    · rfl
    · exact ih

theorem perform_subscribe_eq (depth : Nat) (handle listener topic : String) (reaction : Option (Act ℓ))
    (emit : Event ℓ → ScriptedBus.Doing String ℓ (Scene ℓ)) :
    let done := (Act.subscribe handle listener topic reaction).script.play emit f
    perform depth (.subscribe handle listener topic reaction) (ofScripted f) = (done.1, ofScripted done.2) := by
  simp only [perform, Act.script, Script.play, introduce_ofForum]
  cases Topic.ofName topic <;> rfl

theorem perform_unsubscribe_eq (depth : Nat) (handle : String)
    (emit : Event ℓ → ScriptedBus.Doing String ℓ (Scene ℓ)) :
    let done := (Act.unsubscribe handle).script.play emit f
    perform depth (.unsubscribe handle) (ofScripted f) = (done.1, ofScripted done.2) := by
  have hhandles : (ofScripted f).handles = f.memory.handles := rfl
  simp only [perform, Act.script, Script.play, hhandles]
  cases OrderedMap.find handle f.memory.handles <;> rfl

theorem deliver_eq {depth : Nat} (hperform : ∀ (a : Act ℓ) f,
      perform depth a (ofScripted f) = ((a.script.play (ScriptedBus.emit listenerScript depth) f).1,
        ofScripted (a.script.play (ScriptedBus.emit listenerScript depth) f).2)) (p : Published ℓ) (k : String)
    (f : ScriptedBus String ℓ (Scene ℓ)) :
    deliver depth p k (ofScripted f) =
      ((ScriptedBus.deliver (ScriptedBus.emit listenerScript depth) listenerScript p k f).1,
        ofScripted (ScriptedBus.deliver (ScriptedBus.emit listenerScript depth) listenerScript p k f).2) := by
  have hrecord : (ofScripted f).record k p = ofScripted { f with memory := f.memory.record k p } := rfl
  have hreaction : (ofScripted f).reaction? k = (f.memory.record k p).reaction? k := rfl
  rw [deliver, hrecord, hreaction]
  simp only [ScriptedBus.deliver, listenerScript, Script.play]
  cases (f.memory.record k p).reaction? k with
  | none => rfl
  | some a => exact hperform a _

/-- An act in a scene is its script on a scripted bus. -/
theorem perform_eq (depth : Nat) (a : Act ℓ) (f : ScriptedBus String ℓ (Scene ℓ)) :
    perform depth a (ofScripted f) = ((a.script.play (ScriptedBus.emit listenerScript depth) f).1,
      ofScripted (a.script.play (ScriptedBus.emit listenerScript depth) f).2) := by
  -- scripts of listeners run one level deeper, so the induction is on the depth and not on the act
  induction depth generalizing a f with
  | zero =>
    cases a with
    | subscribe handle listener topic reaction => exact perform_subscribe_eq ..
    | unsubscribe handle => exact perform_unsubscribe_eq ..
    | fail e => rfl
    | publish e => rfl
  | succ depth ih =>
    cases a with
    | subscribe handle listener topic reaction => exact perform_subscribe_eq ..
    | unsubscribe handle => exact perform_unsubscribe_eq ..
    | fail e => rfl
    | publish e =>
      rw [perform_publish]
      have hemitted := deliverAll_eq (f := f.stamp e) (deliver_eq ih ⟨f.clock, e⟩) (f.bus.audience e.topic)
      refine hemitted.trans ?_
      simp only [Act.script, Script.play, ScriptedBus.emit]
      rcases (ScriptedBus.deliverAll _ _ (f.stamp e)) with ⟨e | ⟨⟩, f'⟩ <;> rfl

theorem performAll_eq (depth : Nat) (acts : List (Act ℓ)) (f : ScriptedBus String ℓ (Scene ℓ)) :
    performAll depth acts (ofScripted f) =
      ofScripted (ScriptedBus.playAll (ScriptedBus.emit listenerScript depth) (acts.map Act.script) f) := by
  induction acts generalizing f with
  | nil => rfl
  | cons a rest ih =>
    rw [performAll, List.foldl_cons, perform_eq]
    exact ih _

end Scene

/-! ## Reading a log -/

namespace ScriptedBus

section Reading

variable {κ ℓ : Type}

def subscriptions (log : List (Incident κ ℓ)) : List (Topic × κ) := log.filterMap Incident.subscription?

def cancellations (log : List (Incident κ ℓ)) : List (Topic × κ) := log.filterMap Incident.cancellation?

def publications (log : List (Incident κ ℓ)) : List (Published ℓ) := log.filterMap Incident.publication?

/-- The returns of listeners from the event with a reading of the clock, in order. -/
def answers (tick : Nat) (log : List (Incident κ ℓ)) : List (κ × Published ℓ × Except Fault Unit) :=
  log.filterMap (Incident.answer? tick)

theorem cancellations_append (log more : List (Incident κ ℓ)) :
    cancellations (log ++ more) = cancellations log ++ cancellations more := List.filterMap_append

theorem publications_append (log more : List (Incident κ ℓ)) :
    publications (log ++ more) = publications log ++ publications more := List.filterMap_append

theorem answers_append (tick : Nat) (log more : List (Incident κ ℓ)) :
    answers tick (log ++ more) = answers tick log ++ answers tick more := List.filterMap_append

/-- No listener is subscribed twice to a topic. -/
def Distinct (log : List (Incident κ ℓ)) : Prop := (subscriptions log).Nodup

theorem Distinct.of_append {log more : List (Incident κ ℓ)} (h : Distinct (log ++ more)) : Distinct log := by
  unfold Distinct subscriptions at h ⊢
  rw [List.filterMap_append] at h
  exact h.of_append_left

end Reading

/-! ## Standing listeners -/

variable {κ ℓ σ : Type} [DecidableEq κ] {log : List (Incident κ ℓ)}

/-- The listeners that were subscribed to a topic and not cancelled since, in the order of subscription. -/
def standing (topic : Topic) : List (Incident κ ℓ) → List κ
  | [] => []
  | .subscribed t k :: rest =>
    if t = topic ∧ (t, k) ∉ cancellations rest then k :: standing topic rest else standing topic rest
  | _ :: rest => standing topic rest

theorem standing_sublist (topic : Topic) (log : List (Incident κ ℓ)) :
    ((standing topic log).map fun k => (topic, k)).Sublist (subscriptions log) := by
  induction log with
  | nil => exact .slnil
  | cons i rest ih =>
    cases i with
    | subscribed t k =>
      rw [standing]
      split
      · next h =>
        obtain ⟨rfl, -⟩ := h
        exact ih.cons_cons (t, k)
      · exact ih.cons (t, k)
    | _ => exact ih

/-- If no listener is subscribed twice, the standing listeners are distinct. -/
theorem standing_nodup (h : Distinct log) (topic : Topic) : (standing topic log).Nodup :=
  (List.Nodup.sublist (standing_sublist topic log) h).of_map

theorem standing_subscribed (topic t : Topic) (k : κ) :
    standing topic (log ++ [.subscribed t k]) = standing topic log ++ if t = topic then [k] else [] := by
  induction log with
  | nil => simp [standing, cancellations]
  | cons i rest ih =>
    cases i with
    | subscribed u j =>
      have hsame : cancellations (rest ++ [.subscribed t k]) = cancellations rest := by
        rw [cancellations_append]
        exact List.append_nil _
      rw [List.cons_append, standing, standing, hsame, ih]
      split <;> rfl
    | _ => exact ih

theorem standing_cancelled (topic t : Topic) (k : κ) :
    standing topic (log ++ [.cancelled t k]) =
      if t = topic then (standing topic log).filter (· != k) else standing topic log := by
  induction log with
  | nil => simp [standing]
  | cons i rest ih =>
    cases i with
    | subscribed u j =>
      have hmem : (u, j) ∈ cancellations (rest ++ [.cancelled t k]) ↔
          (u, j) ∈ cancellations rest ∨ u = t ∧ j = k := by
        rw [cancellations_append, List.mem_append]
        exact or_congr Iff.rfl (List.mem_singleton.trans (Prod.mk.injEq ..).to_iff)
      rw [List.cons_append, standing, standing, ih]
      simp only [hmem, not_or]
      by_cases hkept : u = topic ∧ (u, j) ∉ cancellations rest
      · obtain ⟨rfl, hbefore⟩ := hkept
        by_cases ht : t = u
        · rcases eq_or_ne j k with rfl | hj
          · simp [hbefore, ht]
          · simp [hbefore, ht, hj]
        · simp [hbefore, ht, Ne.symm ht]
      · have hlost : ¬ (u = topic ∧ (u, j) ∉ cancellations rest ∧ ¬ (u = t ∧ j = k)) :=
          fun h => hkept ⟨h.1, h.2.1⟩
        rw [if_neg hkept, if_neg hlost]
    | _ => exact ih

/-- A step that is neither a subscription nor a cancellation does not change the standing listeners. -/
theorem standing_snoc (topic : Topic) {i : Incident κ ℓ} (hsub : i.subscription? = none)
    (hcancel : i.cancellation? = none) : standing topic (log ++ [i]) = standing topic log := by
  induction log with
  | nil => cases i <;> first | rfl | cases hsub
  | cons j rest ih =>
    cases j with
    | subscribed u j =>
      have hsame : cancellations (rest ++ [i]) = cancellations rest := by
        simp [cancellations, List.filterMap_append, hcancel]
      rw [List.cons_append, standing, standing, hsame, ih]
    | _ => exact ih

/-- The audience of the bus is the list of standing listeners in the log, if none is subscribed twice. -/
def Synced (f : ScriptedBus κ ℓ σ) : Prop := Distinct f.log → ∀ topic, f.bus.audience topic = standing topic f.log

theorem synced_start (memory : σ) : Synced ({ memory } : ScriptedBus κ ℓ σ) := fun _ _ => rfl

theorem Synced.enter {f : ScriptedBus κ ℓ σ} (h : Synced f) {i : Incident κ ℓ} (hsub : i.subscription? = none)
    (hcancel : i.cancellation? = none) : Synced (f.enter i) := by
  intro hdistinct topic
  show f.bus.audience topic = standing topic (f.log ++ [i])
  rw [standing_snoc topic hsub hcancel, h (Distinct.of_append hdistinct)]

theorem Synced.subscribe {f : ScriptedBus κ ℓ σ} (h : Synced f) (t : Topic) (k : κ) :
    Synced (f.subscribe t k) := by
  intro hdistinct topic
  show (f.bus.subscribe t k).audience topic = standing topic (f.log ++ [.subscribed t k])
  rw [Bus.audience_subscribe, standing_subscribed, h (Distinct.of_append hdistinct)]

theorem Synced.unsubscribe {f : ScriptedBus κ ℓ σ} (h : Synced f) (t : Topic) (k : κ) :
    Synced (f.unsubscribe t k) := by
  intro hdistinct topic
  have hbefore : Distinct f.log := Distinct.of_append hdistinct
  show (f.bus.unsubscribe t k).audience topic = standing topic (f.log ++ [.cancelled t k])
  rw [Bus.audience_unsubscribe, standing_cancelled, h hbefore]
  split
  · exact (standing_nodup hbefore topic).erase_eq_filter k
  · rfl

end ScriptedBus

end Polyscan
