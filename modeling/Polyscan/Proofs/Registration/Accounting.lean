import Polyscan.Proofs.Listening
import Polyscan.Proofs.Registration.Wiring

/-!
The accounts of registration. Under every order of turns each attempt ends once, each ending emits at most one
event and adds at most one engine to the registry, and which ending it is depends on the engine of the attempt
and on whether its name is registered by then.
-/
namespace Polyscan

open Analyzer

namespace Ending

variable {name : String} {a : Analyzer}

/-- The event of an ending. There is none for an engine that raises when it is asked for its name. -/
def event? (name : String) : Ending → Option (Event LogLevel)
  | duplicate _ => some (.log .error (Diagnostic.duplicateEngine name).text)
  | failed f => some (.log .error (Diagnostic.createEngine name f.text).text)
  | nameless _ => none
  | misnamed reported => some (.log .error (Diagnostic.nameContradiction name reported).text)
  | kept _ _ => some (addedEvent name)

/-- The outcome of an attempt if no listener raises on the event of its ending. -/
def result : Ending → Except Fault Unit
  | nameless f => .error f
  | _ => .ok ()

/-- The entry that an ending adds to the registry if no listener raises on its event. -/
def entry? (name : String) : Ending → Option (String × Slot)
  | kept config engine => some (name, .fresh config engine true)
  | _ => none

/-- The ending of an attempt whose engine is `made`, by whether its name is taken. -/
inductive Due (name : String) (config : EngineConfig) (made : Except Fault Engine) (taken : Prop) :
    Ending → Prop
  /-- The name was taken before an engine was asked for. -/
  | refused (h : taken) : Due name config made taken (.duplicate none)
  | failed {f : Fault} (h : made = .error f) : Due name config made taken (.failed f)
  | nameless {engine : Engine} {f : Fault} (h : made = .ok engine) (hname : engine.reportedName = .error f) :
      Due name config made taken (.nameless f)
  | misnamed {engine : Engine} {reported : String} (h : made = .ok engine)
      (hname : engine.reportedName = .ok reported) (hne : reported ≠ name) :
      Due name config made taken (.misnamed reported)
  /-- The name was taken while the engine was made. -/
  | late {engine : Engine} (h : made = .ok engine) (hname : engine.reportedName = .ok name) (htaken : taken) :
      Due name config made taken (.duplicate (some engine))
  | kept {engine : Engine} (h : made = .ok engine) (hname : engine.reportedName = .ok name)
      (hfree : ¬ taken) : Due name config made taken (.kept config engine)

theorem Due.congr {config : EngineConfig} {made : Except Fault Engine} {taken taken' : Prop} {e : Ending}
    (h : Due name config made taken e) (hiff : taken ↔ taken') : Due name config made taken' e := by
  rwa [← propext hiff]

theorem due_ofMade (a : Analyzer) (name : String) (config : EngineConfig) (made : Except Fault Engine) :
    Due name config made (a.isRegistered name = true) (ofMade a name config made) := by
  unfold ofMade
  cases made with
  | error f => exact .failed rfl
  | ok engine =>
    cases hname : engine.reportedName with
    | error f => simpa only [hname] using .nameless rfl hname
    | ok reported =>
      simp only [hname]
      by_cases hne : reported = name
      · subst hne
        rw [if_neg (by simp)]
        split
        case isTrue htaken => exact .late rfl hname htaken
        case isFalse hfree => exact .kept rfl hname hfree
      · rw [if_pos hne]
        exact .misnamed rfl hname hne

/-! ## Effects of endings -/

theorem emits_say (level : LogLevel) (d : Diagnostic) (a : Analyzer) :
    Emits [.log level d.text] a (say level d a).2 := by
  show Emits _ a (emit _ a).2
  rw [emit_eq]
  exact ⟨rfl, rfl, rfl⟩

/-- `register` emits one event, after the engine is in the registry. -/
theorem emits_register (name : String) (config : EngineConfig) (engine : Engine) (a : Analyzer) :
    Emits [addedEvent name] a (register name config engine a).2 := by
  have hstep : register name config engine a = (emit (addedEvent name) >>= fun _ =>
      modify (adjustSlot name fun slot =>
        { slot with
          logForwards := slot.logForwards + 1
          progressForwards := slot.progressForwards + 1 }) : Effect Analyzer Unit)
      { a with slots := a.slots.insert name { engine, config } } := rfl
  rw [hstep, Work.effect_bind, emit_eq]
  cases refusalOf { a with slots := a.slots.insert name { engine, config } } ⟨a.clock, addedEvent name⟩ with
  | none => exact ⟨rfl, rfl, rfl⟩
  | some f => exact ⟨rfl, rfl, rfl⟩

/-- An ending emits its event, under any listeners. -/
theorem effect_emits (name : String) (e : Ending) (a : Analyzer) :
    Emits (e.event? name).toList a (e.effect name a).2 := by
  cases e with
  | nameless f => exact .refl a
  | kept config engine => exact emits_register name config engine a
  | _ => exact emits_say _ _ a

theorem say_of_takes {level : LogLevel} {d : Diagnostic} (h : a.Takes (.log level d.text)) :
    (say level d a).1 = .ok () := by
  show (emit _ a).1 = _
  rw [emit_eq, refusalOf_eq_none_iff.mpr (h a.clock)]
  rfl

/-- An ending has its result if no listener raises. -/
theorem effect_result (hquiet : ∀ level text, a.Takes (.log level text)) (e : Ending) :
    (e.effect name a).1 = e.result := by
  cases e with
  | nameless f => rfl
  | kept config engine =>
    have hok : (register name config engine a).1.isOk = true := register_isOk_iff.mpr (hquiet _ _ _)
    cases hregistered : (register name config engine a).1 with
    | ok u => exact hregistered
    | error f =>
      rw [hregistered] at hok
      cases hok
  | _ => exact say_of_takes (hquiet _ _)

theorem result_eq_ok_iff {e : Ending} : e.result = .ok () ↔ (e.event? name).isSome = true := by
  cases e <;> simp [result, event?]

/-- An ending adds its entry at the end of the registry if no listener raises. -/
theorem effect_entries {e : Ending} (hquiet : ∀ level text, a.Takes (.log level text))
    (hnew : (e.entry? name).isSome = true → name ∉ a.engineNames) :
    (e.effect name a).2.slots.entries = a.slots.entries ++ (e.entry? name).toList := by
  rw [effect_slots]
  cases e with
  | kept config engine =>
    show (a.slots.insert name _).entries = _
    rw [register_isOk_iff.mpr (hquiet _ _ _), OrderedMap.entries_insert _ (hnew rfl)]
    rfl
  | _ => exact (List.append_nil _).symm

end Ending

/-! ## Attempts -/

namespace Attempt

/-- The attempt is finished. -/
def Over (x : Attempt) : Prop := ∃ result, x.phase = .ended result

/-- The engine that the attempt makes or has made, unless it is finished. -/
def Makes (config : EngineConfig) (d : Delayed Engine) (x : Attempt) : Prop :=
  match x.phase with
  | .ready p => p.make x.name config = d
  | .making config' _ made => config' = config ∧ made = d.outcome
  | .ended _ => True

variable {x : Attempt} {a : Analyzer} {e : Ending} {config : EngineConfig} {d : Delayed Engine}

theorem not_over_of_ending (he : x.ending? a = some e) : ¬ x.Over := by
  rintro ⟨result, hx⟩
  rw [ending?_of_ended hx] at he
  cases he

theorem over_after_iff (he : x.ending? a = none) : (x.after a).Over ↔ x.Over := by
  unfold after
  rw [he]
  obtain ⟨name, phase⟩ := x
  cases phase with
  | ended result => rfl
  | ready p | making config rounds made =>
    constructor <;>
    · rintro ⟨result, hphase⟩
      cases hphase

theorem name_after (x : Attempt) (a : Analyzer) : (x.after a).name = x.name := by
  unfold after
  split
  · rfl
  · obtain ⟨name, phase⟩ := x
    cases phase <;> rfl

theorem makes_after (h : x.Makes config d) (hconfig : a.config.engine x.name = config) :
    (x.after a).Makes config d := by
  unfold after
  split
  · trivial
  · obtain ⟨name, phase⟩ := x
    cases phase with
    | ready p =>
      subst hconfig
      exact ⟨rfl, congrArg Delayed.outcome h⟩
    | making config' rounds made => exact h
    | ended result => exact h

/-- The ending of an attempt is the one that is due for its engine. -/
theorem due_of_ending (h : x.Makes config d) (hconfig : a.config.engine x.name = config)
    (he : x.ending? a = some e) :
    Ending.Due x.name config d.outcome (a.isRegistered x.name = true) e := by
  rcases ending?_cases he with ⟨rfl, htaken⟩ | ⟨config', made, hmade, rfl⟩
  · exact .refused htaken
  · have hsame : config' = config ∧ made = d.outcome := by
      obtain ⟨name, phase⟩ := x
      cases phase with
      | ready p =>
        simp only [made?, Option.ite_none_left_eq_some, Option.some.injEq, Prod.mk.injEq] at hmade
        obtain ⟨-, rfl, rfl⟩ := hmade
        exact ⟨hconfig, by rw [hconfig]; exact congrArg Delayed.outcome h⟩
      | making config'' rounds made' =>
        cases rounds with
        | zero =>
          cases hmade
          exact h
        | succ n => cases hmade
      | ended result => cases hmade
    obtain ⟨rfl, rfl⟩ := hsame
    exact Ending.due_ofMade a x.name config' d.outcome

end Attempt

/-! ## Turns -/

/-- The ending of an attempt. -/
structure Ended where
  position : Nat
  name : String
  ending : Ending

namespace Ended

def event? (d : Ended) : Option (Event LogLevel) := d.ending.event? d.name

def entry? (d : Ended) : Option (String × Slot) := d.ending.entry? d.name

end Ended

namespace Registering

/-- The ending of an attempt in its next turn, if that is the last one. -/
def ended? (st : Registering) (i : Nat) : Option Ended :=
  st.attempts[i]?.bind fun x => (x.ending? st.analyzer).map fun e => ⟨i, x.name, e⟩

/-- Turns of attempts, one after another. -/
def turns (st : Registering) (is : List Nat) : Registering := st.play (is.map .turn)

/-- The endings in turns, in their order. -/
def endings (st : Registering) : List Nat → List Ended
  | [] => []
  | i :: rest => (st.ended? i).toList ++ (st.turn i).endings rest

/-- The attempt exists and is not finished. -/
def Pending (st : Registering) (i : Nat) : Prop := ∃ x, st.attempts[i]? = some x ∧ ¬ x.Over

def Finished (st : Registering) (i : Nat) : Prop := ∃ x, st.attempts[i]? = some x ∧ x.Over

variable {st : Registering} {i j : Nat} {d : Ended} {x : Attempt} {is : List Nat}

theorem filterMap_singleton {α β : Type} (f : α → Option β) (x : α) : [x].filterMap f = (f x).toList := by
  rw [List.filterMap_cons]
  cases f x <;> rfl

theorem turns_cons (st : Registering) (i : Nat) (rest : List Nat) :
    st.turns (i :: rest) = (st.turn i).turns rest := rfl

theorem ended?_eq_some (h : st.ended? i = some d) :
    ∃ x e, st.attempts[i]? = some x ∧ x.ending? st.analyzer = some e ∧ d = ⟨i, x.name, e⟩ := by
  obtain ⟨x, hx, hd⟩ := Option.bind_eq_some_iff.mp h
  obtain ⟨e, he, rfl⟩ := Option.map_eq_some_iff.mp hd
  exact ⟨x, e, hx, he, rfl⟩

theorem ending?_eq_none (h : st.ended? i = none) (hx : st.attempts[i]? = some x) :
    x.ending? st.analyzer = none := by
  rw [ended?, hx] at h
  exact Option.map_eq_none_iff.mp h

theorem turn_of_ended? (h : st.ended? i = some d) :
    (st.turn i).analyzer = (d.ending.effect d.name st.analyzer).2 := by
  obtain ⟨x, e, hx, he, rfl⟩ := ended?_eq_some h
  rw [turn_of_ending hx he]

theorem turn_of_not_ended (h : st.ended? i = none) : (st.turn i).analyzer = st.analyzer :=
  turn_quiet fun _ hx => ending?_eq_none h hx

/-! ### Finished attempts -/

theorem pending_of_ended (h : st.ended? i = some d) : st.Pending i := by
  obtain ⟨x, e, hx, he, -⟩ := ended?_eq_some h
  exact ⟨x, hx, Attempt.not_over_of_ending he⟩

/-- An attempt is finished after its last turn. -/
theorem finished_of_ended (h : st.ended? i = some d) : (st.turn i).Finished i := by
  obtain ⟨x, e, hx, he, -⟩ := ended?_eq_some h
  rw [turn_of_ending hx he]
  exact ⟨_, List.getElem?_set_self (List.getElem?_eq_some_iff.mp hx).1, _, rfl⟩

theorem attempts_turn_of_ne (h : j ≠ i) : (st.turn i).attempts[j]? = st.attempts[j]? := by
  rw [turn]
  split
  · rfl
  · exact List.getElem?_set_ne (Ne.symm h)

theorem attempts_turn (hx : st.attempts[i]? = some x) :
    (st.turn i).attempts[i]? = some (x.after st.analyzer) := by
  simp only [turn, hx]
  exact List.getElem?_set_self (List.getElem?_eq_some_iff.mp hx).1

theorem finished_turns (h : st.Finished i) (is : List Nat) : (st.turns is).Finished i := by
  obtain ⟨x, hx, result, hover⟩ := h
  exact ⟨x, ended_lasts hx hover _, result, hover⟩

/-- A turn that ends no attempt, or ends another one, leaves a pending attempt pending. -/
theorem pending_turn_iff (h : j ≠ i ∨ st.ended? i = none) : (st.turn i).Pending j ↔ st.Pending j := by
  by_cases hne : j = i
  · subst hne
    have hnone := h.resolve_left fun hne => hne rfl
    cases hx : st.attempts[j]? with
    | none => rw [turn_of_none hx]
    | some x =>
      have hafter := Attempt.over_after_iff (ending?_eq_none hnone hx)
      simp only [Pending, attempts_turn hx, hx, Option.some.injEq, exists_eq_left', hafter]
  · simp only [Pending, attempts_turn_of_ne hne]

/-- The attempts that end in turns are those that were pending before and are finished after them. -/
theorem mem_endings_iff (is : List Nat) :
    j ∈ (st.endings is).map Ended.position ↔ st.Pending j ∧ (st.turns is).Finished j := by
  induction is generalizing st with
  | nil =>
    constructor
    · intro h
      cases h
    · rintro ⟨⟨x, hx, hnot⟩, y, hy, hover⟩
      cases hx.symm.trans hy
      exact absurd hover hnot
  | cons i rest ih =>
    rw [endings, List.map_append, List.mem_append, ih, turns_cons]
    cases hended : st.ended? i with
    | none =>
      rw [pending_turn_iff (.inr hended)]
      exact or_iff_right nofun
    | some d =>
      obtain ⟨x, e, hx, he, rfl⟩ := ended?_eq_some hended
      by_cases hne : j = i
      · subst hne
        exact ⟨fun _ => ⟨pending_of_ended hended, finished_turns (finished_of_ended hended) rest⟩,
          fun _ => .inl List.mem_cons_self⟩
      · rw [pending_turn_iff (.inl hne)]
        exact or_iff_right fun h => hne (List.mem_singleton.mp h)

/-- No attempt ends twice. -/
theorem endings_nodup (is : List Nat) : ((st.endings is).map Ended.position).Nodup := by
  induction is generalizing st with
  | nil => exact List.nodup_nil
  | cons i rest ih =>
    rw [endings]
    cases hended : st.ended? i with
    | none => exact ih
    | some d =>
      obtain ⟨x, e, hx, he, rfl⟩ := ended?_eq_some hended
      refine List.nodup_cons.mpr ⟨fun hmem => ?_, ih⟩
      -- it was finished before the other turns
      obtain ⟨⟨y, hy, hnot⟩, -⟩ := (mem_endings_iff rest).mp hmem
      obtain ⟨z, hz, hover⟩ := finished_of_ended hended
      cases hy.symm.trans hz
      exact hnot hover

/-! ### Effects of turns -/

/-- Turns emit the events of their endings. -/
theorem turns_emit (is : List Nat) :
    Emits ((st.endings is).filterMap Ended.event?) st.analyzer (st.turns is).analyzer := by
  induction is generalizing st with
  | nil => exact .refl _
  | cons i rest ih =>
    rw [endings, List.filterMap_append, turns_cons]
    refine Emits.trans ?_ ih
    cases hended : st.ended? i with
    | none =>
      rw [turn_of_not_ended hended]
      exact .refl _
    | some d =>
      rw [turn_of_ended? hended]
      rw [Option.toList_some, filterMap_singleton]
      exact d.ending.effect_emits d.name st.analyzer

/-- An ending adds an entry only for a name that is not registered. -/
theorem entry_new (h : st.ended? i = some d) (hentry : d.entry?.isSome = true) :
    d.name ∉ st.analyzer.engineNames := by
  obtain ⟨x, e, hx, he, rfl⟩ := ended?_eq_some h
  cases e with
  | kept config engine =>
    intro hmem
    have hfree := Attempt.not_isRegistered_of_kept he
    rw [isRegistered_iff.mpr hmem] at hfree
    cases hfree
  | _ => cases hentry

/-- If no listener raises, turns add the entries of their endings to the registry. -/
theorem turns_entries (hquiet : ∀ level text, st.analyzer.Takes (.log level text)) (is : List Nat) :
    (st.turns is).analyzer.slots.entries =
      st.analyzer.slots.entries ++ (st.endings is).filterMap Ended.entry? := by
  induction is generalizing st with
  | nil => exact (List.append_nil _).symm
  | cons i rest ih =>
    have hemitted : Emits _ st.analyzer (st.turn i).analyzer := turns_emit [i]
    rw [endings, List.filterMap_append, turns_cons, ih fun level text => hemitted.takes (hquiet level text),
      ← List.append_assoc]
    congr 1
    cases hended : st.ended? i with
    | none =>
      rw [turn_of_not_ended hended]
      exact (List.append_nil _).symm
    | some d =>
      rw [turn_of_ended? hended, Ending.effect_entries hquiet (entry_new hended), Option.toList_some,
        filterMap_singleton]
      rfl

/-! ### Due endings -/

/-- The engine that is made for each attempt. -/
def Makes (st : Registering) (making : Nat → String → EngineConfig → Delayed Engine) : Prop :=
  ∀ (i : Nat) (x : Attempt), st.attempts[i]? = some x →
    x.Makes (st.analyzer.config.engine x.name) (making i x.name (st.analyzer.config.engine x.name))

variable {making : Nat → String → EngineConfig → Delayed Engine}

theorem emits_turn (st : Registering) (i : Nat) :
    Emits ((st.endings [i]).filterMap Ended.event?) st.analyzer (st.turn i).analyzer :=
  turns_emit [i]

theorem Makes.turn (h : st.Makes making) (i : Nat) : (st.turn i).Makes making := by
  intro j x hx
  rw [(emits_turn st i).config]
  by_cases hne : j = i
  · subst hne
    cases hy : st.attempts[j]? with
    | none =>
      rw [turn_of_none hy, hy] at hx
      cases hx
    | some y =>
      rw [attempts_turn hy] at hx
      cases hx
      rw [Attempt.name_after]
      exact Attempt.makes_after (h j y hy) rfl
  · rw [attempts_turn_of_ne hne] at hx
    exact h j x hx

/-- The names of attempts. -/
def names (st : Registering) : List String := st.attempts.map Attempt.name

theorem names_turn (st : Registering) (i : Nat) : (st.turn i).names = st.names := by
  refine List.ext_getElem? fun j => ?_
  rw [names, names, List.getElem?_map, List.getElem?_map]
  by_cases hne : j = i
  · subst hne
    cases hx : st.attempts[j]? with
    | none => rw [turn_of_none hx, hx]
    | some x =>
      rw [attempts_turn hx]
      exact congrArg some (Attempt.name_after x st.analyzer)
  · rw [attempts_turn_of_ne hne]

theorem names_turns (st : Registering) (is : List Nat) : (st.turns is).names = st.names := by
  induction is generalizing st with
  | nil => rfl
  | cons i rest ih => rw [turns_cons, ih, names_turn]

theorem mem_engineNames_turn {name : String} (hquiet : ∀ level text, st.analyzer.Takes (.log level text))
    (h : st.ended? i = some d) : name ∈ (st.turn i).analyzer.engineNames ↔
      name ∈ st.analyzer.engineNames ∨ d.name = name ∧ d.entry?.isSome = true := by
  have hentries : (st.turn i).analyzer.slots.entries = st.analyzer.slots.entries ++ d.entry?.toList := by
    rw [turn_of_ended? h]
    exact Ending.effect_entries hquiet (entry_new h)
  have hnames : (st.turn i).analyzer.engineNames =
      st.analyzer.engineNames ++ d.entry?.toList.map Prod.fst := by
    show (st.turn i).analyzer.slots.entries.map Prod.fst = _
    rw [hentries, List.map_append]
    rfl
  rw [hnames, List.mem_append]
  refine or_congr_right ?_
  obtain ⟨position, name', ending⟩ := d
  cases ending with
  | kept config engine => simp [Ended.entry?, Ending.entry?, eq_comm]
  | _ => simp [Ended.entry?, Ending.entry?]

/-- Every ending is the one that is due for what its attempt makes, where a name is taken if it was registered
before, or if an earlier ending added it. -/
theorem endings_due (hmakes : st.Makes making) (hquiet : ∀ level text, st.analyzer.Takes (.log level text))
    {before after : List Ended} (hsplit : st.endings is = before ++ d :: after) :
    st.names[d.position]? = some d.name ∧
      Ending.Due d.name (st.analyzer.config.engine d.name)
        (making d.position d.name (st.analyzer.config.engine d.name)).outcome
        (d.name ∈ st.analyzer.engineNames ∨ ∃ k ∈ before, k.name = d.name ∧ k.entry?.isSome = true)
        d.ending := by
  induction is generalizing st before with
  | nil => exact absurd hsplit (by simp [endings])
  | cons i rest ih =>
    have hemitted := emits_turn st i
    have hquiet' : ∀ level text, (st.turn i).analyzer.Takes (.log level text) :=
      fun level text => hemitted.takes (hquiet level text)
    rw [endings] at hsplit
    cases hended : st.ended? i with
    | none =>
      rw [hended] at hsplit
      obtain ⟨hname, hdue⟩ := ih (hmakes.turn i) hquiet' hsplit
      rw [names_turn] at hname
      rw [hemitted.config, turn_of_not_ended hended] at hdue
      exact ⟨hname, hdue⟩
    | some k =>
      rw [hended, Option.toList_some, List.singleton_append] at hsplit
      cases before with
      | nil =>
        -- this attempt ends first
        obtain ⟨rfl, -⟩ := List.cons.inj hsplit
        obtain ⟨x, e, hx, he, rfl⟩ := ended?_eq_some hended
        refine ⟨by rw [names, List.getElem?_map, hx]; rfl, ?_⟩
        refine (Attempt.due_of_ending (hmakes i x hx) rfl he).congr ?_
        rw [isRegistered_iff]
        simp
      | cons k' before =>
        obtain ⟨rfl, hlater⟩ := List.cons.inj hsplit
        obtain ⟨hname, hdue⟩ := ih (hmakes.turn i) hquiet' hlater
        rw [names_turn] at hname
        rw [hemitted.config] at hdue
        refine ⟨hname, hdue.congr ?_⟩
        rw [mem_engineNames_turn hquiet hended, or_assoc]
        refine or_congr_right ?_
        simp only [List.mem_cons, or_and_right, exists_or, exists_eq_left]

end Registering

end Polyscan
