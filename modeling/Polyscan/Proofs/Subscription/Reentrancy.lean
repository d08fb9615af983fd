import Polyscan.Proofs.Subscription.ScriptedBus

/-!
Nested emissions. Every emission, also one within another, calls exactly the listeners that were subscribed
when it began, in the order of their subscriptions, up to the first that raises, and takes one reading of the
clock. Listeners may subscribe, unsubscribe, emit and raise meanwhile.
-/
namespace Polyscan.ScriptedBus

variable {κ ℓ σ : Type}

/-! ## Emissions in a log -/

/-- Listeners are called one after another, each of them once, up to the first that raises. Its fault is the
outcome of the emission. -/
inductive CalledInTurn : List κ → List (κ × Except Fault Unit) → Except Fault Unit → Prop
  | all : CalledInTurn [] [] (.ok ())
  | fails {k : κ} {rest : List κ} {f : Fault} : CalledInTurn (k :: rest) [(k, .error f)] (.error f)
  | next {k : κ} {rest : List κ} {calls : List (κ × Except Fault Unit)} {outcome : Except Fault Unit} :
    CalledInTurn rest calls outcome → CalledInTurn (k :: rest) ((k, .ok ()) :: calls) outcome

/-- Between the reading of the clock for an event and the end of its emission the listeners were called with
it in turn, and no listener was called with it before or later. -/
structure Received (listeners : List κ) (p : Published ℓ) (before after : List (Incident κ ℓ)) : Prop where
  notBefore : answers p.tick before = []
  inTurn : ∃ during outcome later calls, after = during ++ .settled p outcome :: later ∧
    CalledInTurn listeners calls outcome ∧ answers p.tick during = calls.map (fun c => (c.1, p, c.2)) ∧
    answers p.tick later = []

theorem Received.append {listeners : List κ} {p : Published ℓ} {before after : List (Incident κ ℓ)}
    (h : Received listeners p before after) (earlier later : List (Incident κ ℓ))
    (hearlier : answers p.tick earlier = []) (hlater : answers p.tick later = []) :
    Received listeners p (earlier ++ before) (after ++ later) where
  notBefore := by rw [answers_append, hearlier, h.notBefore, List.append_nil]
  inTurn := by
    obtain ⟨during, outcome, rest, calls, rfl, hcalls, hanswers, hrest⟩ := h.inTurn
    refine ⟨during, outcome, rest ++ later, calls, ?_, hcalls, hanswers, ?_⟩
    · rw [List.append_assoc, List.cons_append]
    · rw [answers_append, hrest, hlater, List.append_nil]

theorem mem_publications {log : List (Incident κ ℓ)} {p : Published ℓ} :
    p ∈ publications log ↔ .published p ∈ log := by
  unfold publications
  rw [List.mem_filterMap]
  constructor
  · rintro ⟨i, hi, hp⟩
    cases i <;> cases hp
    exact hi
  · intro hp
    exact ⟨_, hp, rfl⟩

theorem answers_eq_nil {tick : Nat} {log : List (Incident κ ℓ)}
    (h : ∀ k p outcome, .answered k p outcome ∈ log → p.tick ≠ tick) : answers tick log = [] := by
  unfold answers
  rw [List.filterMap_eq_nil_iff]
  intro i hi
  cases i with
  | answered k p outcome => exact if_neg (h k p outcome hi)
  | _ => rfl

variable [DecidableEq κ]

/-- From `f` to `f'` the log grew by `new`. Listeners were called only with events that were emitted in it or
belong to `own`, and every event that was emitted in it was delivered to the standing listeners. -/
structure Recounts (own : Published ℓ → Prop) (f f' : ScriptedBus κ ℓ σ) (new : List (Incident κ ℓ)) : Prop where
  log : f'.log = f.log ++ new
  clock : f'.clock = f.clock + (publications new).length
  answered : ∀ k p outcome, .answered k p outcome ∈ new → own p ∨ p ∈ publications new
  heard : ∀ before p after, new = before ++ .published p :: after →
    p.tick = f.clock + (publications before).length ∧
      (Distinct (f.log ++ before) → Received (standing p.event.topic (f.log ++ before)) p before after)

namespace Recounts

variable {own : Published ℓ → Prop} {f f' f'' : ScriptedBus κ ℓ σ} {new more : List (Incident κ ℓ)}

theorem tick_bounds (h : Recounts own f f' new) {p : Published ℓ} (hp : p ∈ publications new) :
    f.clock ≤ p.tick ∧ p.tick < f'.clock := by
  obtain ⟨before, after, hsplit⟩ := List.append_of_mem (mem_publications.mp hp)
  have htick := (h.heard before p after hsplit).1
  have hclock := h.clock
  have hlength : (publications new).length =
      (publications before).length + ((publications after).length + 1) := by
    rw [hsplit, publications_append, List.length_append]
    rfl
  omega

/-- No listener is called with an event of another time. -/
theorem answers_eq_nil_of (h : Recounts own f f' new) {tick : Nat} (hown : ∀ p, own p → p.tick ≠ tick)
    (htick : tick < f.clock ∨ f'.clock ≤ tick) : answers tick new = [] := by
  refine answers_eq_nil fun k p outcome hanswered => ?_
  rcases h.answered k p outcome hanswered with hp | hp
  · exact hown p hp
  · have hbounds := h.tick_bounds hp
    omega

theorem still (hlog : f'.log = f.log) (hclock : f'.clock = f.clock) : Recounts own f f' [] where
  log := by rw [hlog, List.append_nil]
  clock := hclock
  answered := fun _ _ _ h => absurd h List.not_mem_nil
  heard := fun before _ _ h => absurd h (by simp)

/-- A step that emits nothing. -/
theorem single {i : Incident κ ℓ} (hlog : f'.log = f.log ++ [i]) (hclock : f'.clock = f.clock)
    (hpublication : i.publication? = none) (hanswer : ∀ k p outcome, i = .answered k p outcome → own p) :
    Recounts own f f' [i] where
  log := hlog
  clock := by simp [publications, hpublication, hclock]
  answered := by
    intro k p outcome h
    exact .inl (hanswer k p outcome (List.mem_singleton.mp h).symm)
  heard := by
    intro before p after h
    rcases List.singleton_eq_append_iff.mp h with ⟨-, hrest⟩ | ⟨-, hrest⟩
    · rw [← (List.cons.inj hrest).1] at hpublication
      cases hpublication
    · exact absurd hrest.symm (by simp)

theorem mono {own' : Published ℓ → Prop} (h : Recounts own f f' new) (howns : ∀ p, own p → own' p) :
    Recounts own' f f' new where
  log := h.log
  clock := h.clock
  answered k p outcome hmem := (h.answered k p outcome hmem).imp_left (howns p)
  heard := h.heard

/-- A delivery is not affected by later steps, and later events were not delivered before. -/
theorem append (h : Recounts own f f' new) (h' : Recounts own f' f'' more)
    (hown : ∀ p, own p → p.tick < f.clock) : Recounts own f f'' (new ++ more) where
  log := by rw [h'.log, h.log, List.append_assoc]
  clock := by
    rw [h'.clock, h.clock, publications_append, List.length_append]
    omega
  answered := by
    intro k p outcome hmem
    rw [publications_append, List.mem_append]
    rcases List.mem_append.mp hmem with hmem | hmem
    · exact (h.answered k p outcome hmem).imp_right .inl
    · exact (h'.answered k p outcome hmem).imp_right .inr
  heard := by
    intro before p after heq
    have hclock := h.clock
    rcases append_eq_append_cons heq with ⟨between, hnew⟩ | ⟨behind, rfl, hmore⟩
    · obtain ⟨htick, hheard⟩ := h.heard before p between hnew
      have hafter : after = between ++ more := by
        rw [hnew, List.append_assoc] at heq
        exact (List.cons.inj (List.append_cancel_left heq)).2.symm
      have hmem : p ∈ publications new := mem_publications.mpr (by rw [hnew]; simp)
      have hbounds := h.tick_bounds hmem
      have hnothing : answers p.tick more = [] :=
        h'.answers_eq_nil_of (fun q hq => by have := hown q hq; omega) (.inl hbounds.2)
      refine ⟨htick, fun hdistinct => ?_⟩
      rw [hafter]
      exact (hheard hdistinct).append [] more rfl hnothing
    · obtain ⟨htick, hheard⟩ := h'.heard behind p after hmore
      have hnothing : answers p.tick new = [] :=
        h.answers_eq_nil_of (fun q hq => by have := hown q hq; omega) (.inr (by omega))
      rw [publications_append, List.length_append]
      refine ⟨by omega, fun hdistinct => ?_⟩
      rw [← List.append_assoc, ← h.log] at hdistinct ⊢
      have hp := (hheard hdistinct).append new [] hnothing rfl
      rwa [List.append_nil] at hp

end Recounts

/-! ## Single scripts -/

/-- From `f` to `f'` a script ran outside of the delivery of an event: the bus is still synced with the log,
and the new part of the log recounts it. -/
def Acted (f f' : ScriptedBus κ ℓ σ) : Prop :=
  Synced f → Synced f' ∧ ∃ new, Recounts (fun _ => False) f f' new

namespace Acted

variable {f f' f'' : ScriptedBus κ ℓ σ}

theorem idle (hbus : f'.bus = f.bus) (hlog : f'.log = f.log) (hclock : f'.clock = f.clock) :
    Acted f f' := by
  intro h
  refine ⟨?_, [], .still hlog hclock⟩
  unfold Synced
  rw [hbus, hlog]
  exact h

theorem trans (h : Acted f f') (h' : Acted f' f'') : Acted f f'' := by
  intro hsynced
  obtain ⟨hsynced', new, hnew⟩ := h hsynced
  obtain ⟨hsynced'', more, hmore⟩ := h' hsynced'
  exact ⟨hsynced'', new ++ more, hnew.append hmore fun _ hp => hp.elim⟩

theorem subscribe (f : ScriptedBus κ ℓ σ) (t : Topic) (k : κ) : Acted f (f.subscribe t k) := fun h =>
  ⟨h.subscribe t k, [.subscribed t k], .single rfl rfl rfl fun _ _ _ hi => nomatch hi⟩

theorem unsubscribe (f : ScriptedBus κ ℓ σ) (t : Topic) (k : κ) : Acted f (f.unsubscribe t k) := fun h =>
  ⟨h.unsubscribe t k, [.cancelled t k], .single rfl rfl rfl fun _ _ _ hi => nomatch hi⟩

end Acted

variable {publish : Event ℓ → Doing κ ℓ σ} (script : κ → Published ℓ → Script κ ℓ σ)

theorem acted_play (hpublish : ∀ e f, Acted f (publish e f).2) (s : Script κ ℓ σ) (f : ScriptedBus κ ℓ σ) :
    Acted f (s.play publish f).2 := by
  induction s generalizing f with
  | returns => exact .idle rfl rfl rfl
  | raises e => exact .idle rfl rfl rfl
  | consult next ih => exact ih f.memory f
  | note change next ih =>
    have hnoted : Acted f { f with memory := change f.memory } := .idle rfl rfl rfl
    exact hnoted.trans (ih _)
  | subscribe name k next ih =>
    rw [Script.play]
    cases Topic.ofName name with
    | error e => exact ih (.error e) f
    | ok t => exact (Acted.subscribe f t k).trans (ih (.ok t) _)
  | unsubscribe t k next ih => exact (Acted.unsubscribe f t k).trans (ih _)
  | publish e next ih => exact (hpublish e f).trans (ih _ _)

/-- A listener is called with an event that was emitted before, and returns once its script has run. -/
theorem recounts_deliver (hpublish : ∀ e f, Acted f (publish e f).2) {p : Published ℓ} (k : κ)
    {f : ScriptedBus κ ℓ σ} (hsynced : Synced f) (hp : p.tick < f.clock) :
    Synced (deliver publish script p k f).2 ∧ ∃ new, Recounts (· = p) f (deliver publish script p k f).2 new ∧
      answers p.tick new = [(k, p, (deliver publish script p k f).1)] := by
  obtain ⟨hplayed, during, hduring⟩ := acted_play hpublish (script k p) f hsynced
  refine ⟨hplayed.enter rfl rfl, during ++ [.answered k p (deliver publish script p k f).1], ?_, ?_⟩
  · refine (hduring.mono fun _ h => h.elim).append (.single rfl rfl rfl ?_) ?_
    · intro j q outcome h
      cases h
      rfl
    · rintro q rfl
      exact hp
  · rw [answers_append, hduring.answers_eq_nil_of (fun _ h => h.elim) (.inl hp)]
    simp [answers, Incident.answer?]

theorem recounts_deliverAll (hpublish : ∀ e f, Acted f (publish e f).2) {p : Published ℓ} (ks : List κ)
    {f : ScriptedBus κ ℓ σ} (hsynced : Synced f) (hp : p.tick < f.clock) :
    Synced (deliverAll (deliver publish script p) ks f).2 ∧ ∃ new calls,
      Recounts (· = p) f (deliverAll (deliver publish script p) ks f).2 new ∧
      CalledInTurn ks calls (deliverAll (deliver publish script p) ks f).1 ∧
      answers p.tick new = calls.map fun c => (c.1, p, c.2) := by
  induction ks generalizing f with
  | nil => exact ⟨hsynced, [], [], .still rfl rfl, .all, rfl⟩
  | cons k rest ih =>
    obtain ⟨hsynced', new, hnew, hanswer⟩ := recounts_deliver script hpublish k hsynced hp
    rw [deliverAll]
    rcases heq : deliver publish script p k f with ⟨e | ⟨⟩, f'⟩
    · rw [heq] at hsynced' hnew hanswer
      exact ⟨hsynced', new, [(k, .error e)], hnew, .fails, hanswer⟩
    · rw [heq] at hsynced' hnew hanswer
      have hp' : p.tick < f'.clock := by
        have hclock : f'.clock = f.clock + (publications new).length := hnew.clock
        omega
      obtain ⟨hsynced'', more, calls, hmore, hturn, hanswers⟩ := ih hsynced' hp'
      refine ⟨hsynced'', new ++ more, (k, .ok ()) :: calls, hnew.append hmore ?_, .next hturn, ?_⟩
      · rintro q rfl
        exact hp
      · rw [answers_append, hanswer, hanswers]
        rfl

/-- If all standing listeners were called in turn, the emission is recounted. -/
theorem Recounts.settled {f g : ScriptedBus κ ℓ σ} {e : Event ℓ} {during : List (Incident κ ℓ)}
    {calls : List (κ × Except Fault Unit)} {outcome : Except Fault Unit}
    (h : Recounts (· = ⟨f.clock, e⟩) (f.stamp e) g during)
    (hturn : Distinct f.log → CalledInTurn (standing e.topic f.log) calls outcome)
    (hanswers : answers f.clock during = calls.map fun c => (c.1, ⟨f.clock, e⟩, c.2)) :
    Recounts (fun _ => False) f (g.enter (.settled ⟨f.clock, e⟩ outcome))
      (.published ⟨f.clock, e⟩ :: during ++ [.settled ⟨f.clock, e⟩ outcome]) := by
  have hwhole : Recounts (· = ⟨f.clock, e⟩) (f.stamp e) (g.enter (.settled ⟨f.clock, e⟩ outcome))
      (during ++ [.settled ⟨f.clock, e⟩ outcome]) := by
    refine h.append (.single rfl rfl rfl fun _ _ _ hi => nomatch hi) ?_
    rintro q rfl
    exact Nat.lt_succ_self _
  refine ⟨?_, ?_, ?_, ?_⟩
  · rw [hwhole.log]
    simp [stamp]
  · have hclock : (g.enter (.settled ⟨f.clock, e⟩ outcome)).clock = f.clock + 1 + _ := hwhole.clock
    rw [hclock, Nat.add_right_comm]
    rfl
  · intro k p outcome' hmem
    right
    rcases hwhole.answered k p outcome' (by simpa using hmem) with rfl | hp
    · exact List.mem_cons_self
    · exact List.mem_cons_of_mem _ hp
  · intro before p after heq
    cases before with
    | nil =>
      cases heq
      refine ⟨rfl, fun hdistinct => ⟨rfl, during, outcome, [], calls, rfl, ?_, hanswers, rfl⟩⟩
      rw [List.append_nil] at hdistinct ⊢
      exact hturn hdistinct
    | cons i before =>
      rw [List.cons_append, List.cons_append, List.cons.injEq] at heq
      obtain ⟨rfl, heq⟩ := heq
      obtain ⟨htick, hheard⟩ := hwhole.heard before p after heq
      have hlog : f.log ++ .published ⟨f.clock, e⟩ :: before = (f.stamp e).log ++ before := by
        simp [stamp]
      refine ⟨?_, fun hdistinct => ?_⟩
      · rw [htick]
        simp [stamp, publications, Incident.publication?]
        omega
      · rw [hlog] at hdistinct ⊢
        have hp := (hheard hdistinct).append [.published ⟨f.clock, e⟩] [] rfl rfl
        rwa [List.append_nil] at hp

theorem acted_emit (depth : Nat) (e : Event ℓ) (f : ScriptedBus κ ℓ σ) :
    Acted f (emit script depth e f).2 := by
  induction depth generalizing e f with
  | zero =>
    intro hsynced
    exact ⟨hsynced.enter rfl rfl, [.cutOff e], .single rfl rfl rfl fun _ _ _ hi => nomatch hi⟩
  | succ depth ih =>
    intro hsynced
    have hstamped : Synced (f.stamp e) := hsynced.enter rfl rfl
    obtain ⟨hcalls, during, calls, hduring, hturn, hanswers⟩ :=
      recounts_deliverAll script ih (p := ⟨f.clock, e⟩) (f.bus.audience e.topic) hstamped
        (Nat.lt_succ_self _)
    refine ⟨hcalls.enter rfl rfl, _, hduring.settled (fun hdistinct => ?_) hanswers⟩
    rw [← hsynced hdistinct]
    exact hturn

theorem acted_playAll (hpublish : ∀ e f, Acted f (publish e f).2) (scripts : List (Script κ ℓ σ))
    (f : ScriptedBus κ ℓ σ) : Acted f (playAll publish scripts f) := by
  induction scripts generalizing f with
  | nil => exact .idle rfl rfl rfl
  | cons s rest ih => exact (acted_play hpublish s f).trans (ih _)

/-! ## A whole history -/

/-- The clock was read once for each event, and each event was delivered in turn to the listeners that were
standing when it was emitted, to no other ones and to none twice. -/
structure Delivers (f : ScriptedBus κ ℓ σ) : Prop where
  clock : f.clock = (publications f.log).length
  emissions : ∀ before p after, f.log = before ++ .published p :: after →
    p.tick = (publications before).length ∧ (standing p.event.topic before).Nodup ∧
      Received (standing p.event.topic before) p before after
  answered : ∀ k p outcome, .answered k p outcome ∈ f.log → .published p ∈ f.log

/-- Delivery in `playAll`, for all scripts that run on a bus and all scripts of its listeners. If no listener
is subscribed twice to a topic, every emission is delivered as `Delivers` says, also one within another. If no
emission is refused for its depth, the depth limit makes no difference. `Scene.performAll` is the case in
which listeners perform one act each. -/
theorem playAll_delivers (script : κ → Published ℓ → Script κ ℓ σ) (depth : Nat)
    (scripts : List (Script κ ℓ σ)) (memory : σ)
    (hdistinct : Distinct (playAll (emit script depth) scripts { memory }).log) :
    Delivers (playAll (emit script depth) scripts { memory }) ∧
      (Unbroken (playAll (emit script depth) scripts { memory }).log → ∀ deeper, depth ≤ deeper →
        playAll (emit script deeper) scripts { memory } = playAll (emit script depth) scripts { memory }) ∧
      ∀ acts : List (Act ℓ), Scene.performAll depth acts {} =
        Scene.ofScripted (playAll (emit Scene.listenerScript depth) (acts.map Act.script) { memory := {} }) := by
  obtain ⟨-, log, hlog⟩ :=
    acted_playAll (acted_emit script depth) scripts { memory } (synced_start memory)
  have hwhole : (playAll (emit script depth) scripts { memory }).log = log := hlog.log
  refine ⟨⟨?_, ?_, ?_⟩, fun hunbroken deeper hle => playAll_of_le hle scripts hunbroken,
    fun acts => Scene.performAll_eq depth acts { memory := {} }⟩
  · rw [hwhole, hlog.clock]
    exact Nat.zero_add _
  · intro before p after heq
    rw [heq] at hdistinct
    have hbefore : Distinct before := Distinct.of_append hdistinct
    obtain ⟨htick, hheard⟩ := hlog.heard before p after (hwhole.symm.trans heq)
    exact ⟨htick.trans (Nat.zero_add _), standing_nodup hbefore _, hheard hbefore⟩
  · intro k p outcome hmem
    rw [hwhole] at hmem ⊢
    exact mem_publications.mp ((hlog.answered k p outcome hmem).resolve_left id)

/-- Listeners of the sample below. -/
inductive Role where
  | rewirer
  | removed
  | added
  | raiser
  deriving DecidableEq

/-- The rewirer unsubscribes one listener, subscribes another one, and emits two further events, of which the
first may fail and the second has no listeners. The raiser raises on debug messages. -/
def Role.behaviour : Role → Published LogLevel → Script Role LogLevel Unit
  | .rewirer, ⟨_, .log .info _⟩ =>
    .unsubscribe .log .removed <| .subscribe "LogEvent" .added fun _ =>
      .publish (.log .debug "a remark") fun _ => .publish (.progress "rewiring" (.share 1 2)) fun _ => .returns
  | .raiser, ⟨_, .log .debug _⟩ => .raises (.raised .value "no remarks")
  | _, _ => .returns

/-- The rewirer, the raiser and a third listener are subscribed, and an event is emitted. -/
def rewiring : List (Script Role LogLevel Unit) :=
  [.subscribe "LogEvent" .rewirer fun _ => .subscribe "LogEvent" .raiser fun _ =>
    .subscribe "LogEvent" .removed fun _ => .returns,
    .publish (.log .info "a notice") fun _ => .returns]

/-- Subscriptions change during the delivery of an event. -/
theorem playAll_delivers_rewiring :
    Distinct (playAll (emit Role.behaviour 2) rewiring { memory := () }).log ∧
      Delivers (playAll (emit Role.behaviour 2) rewiring { memory := () }) := by
  have hdistinct : Distinct (playAll (emit Role.behaviour 2) rewiring { memory := () }).log := by
    unfold Distinct
    decide
  exact ⟨hdistinct, (playAll_delivers Role.behaviour 2 rewiring () hdistinct).1⟩

/-- The removed listener is still called with the first event. The added one is not called with the second, as the
raiser comes before it. -/
example : let log := (playAll (emit Role.behaviour 2) rewiring { memory := () }).log
    (answers 0 log).map Prod.fst = [.rewirer, .raiser, .removed] ∧
      (answers 1 log).map Prod.fst = [.rewirer, .raiser] ∧ (answers 2 log).map Prod.fst = [] :=
  ⟨rfl, rfl, rfl⟩

end Polyscan.ScriptedBus
