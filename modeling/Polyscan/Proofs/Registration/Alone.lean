import Mathlib.Data.List.Nodup
import Mathlib.Tactic.Tauto
import Polyscan.Proofs.Registration.Namesakes

/-!
`addPlugin` run alone. Its attempts have their turns in rounds until all of them are finished; the effect on
the registry and the events are the account of these turns, which holds for every other order of turns as
well.
-/
namespace Polyscan

open Analyzer Work

/-- An upper bound for the remaining turns of an attempt. -/
def Attempt.toGo (x : Attempt) (a : Analyzer) : Nat :=
  match x.phase with
  | .ready p => (p.make x.name (a.config.engine x.name)).rounds + 1
  | .making _ rounds _ => rounds + 1
  | .ended _ => 0

/-- Every turn lowers the bound. -/
theorem Attempt.toGo_after {x : Attempt} (h : ¬ x.Over) (a b : Analyzer) :
    (x.after a).toGo b < x.toGo a := by
  obtain ⟨name, phase⟩ := x
  unfold after
  cases he : Attempt.ending? ⟨name, phase⟩ a with
  | some e =>
    cases phase with
    | ended result => exact absurd ⟨result, rfl⟩ h
    | _ => exact Nat.succ_pos _
  | none =>
    cases phase with
    | ended result => exact absurd ⟨result, rfl⟩ h
    | ready p =>
      have hrounds : (p.make name (a.config.engine name)).rounds ≠ 0 := by
        intro hzero
        unfold ending? at he
        split at he
        · cases he
        case isFalse hfree =>
          have hmade : made? ⟨name, .ready p⟩ a =
              some (a.config.engine name, (p.make name (a.config.engine name)).outcome) := by
            simp only [isRefused, Bool.not_eq_true] at hfree
            simp [made?, hfree, hzero]
          rw [hmade] at he
          cases he
      simp only [toGo]
      omega
    | making config rounds made =>
      cases rounds with
      | zero => cases he
      | succ n => simp [toGo]

namespace Registering

variable {st : Registering} {i k : Nat} {x : Attempt} {w : Work Analyzer Unit} {is : List Nat}
variable {running todo : List (Nat × Work Analyzer Unit)} {finished : List (Nat × Except Fault Unit)}

theorem turns_append (st : Registering) (is js : List Nat) :
    st.turns (is ++ js) = (st.turns is).turns js := by
  rw [turns, List.map_append, play_append]
  rfl

theorem result?_work {r : Except Fault Unit} : x.work.result? = some r ↔ x.phase = .ended r := by
  obtain ⟨name, phase⟩ := x
  cases phase with
  | ready p => exact ⟨nofun, nofun⟩
  | making config rounds made => exact ⟨nofun, nofun⟩
  | ended result => simp [Attempt.work, Work.result?]

theorem eq_done_of_result? {α : Type} {w : Work Analyzer α} {r : Except Fault α} (h : w.result? = some r) :
    w = .done r := by
  cases w with
  | done r' =>
    cases h
    rfl
  | _ => cases h

/-! ## Rounds of turns -/

/-- The attempts under way: each is running, with the rest of its work, or finished. -/
structure Runs (st : Registering) (running : List (Nat × Work Analyzer Unit))
    (finished : List (Nat × Except Fault Unit)) : Prop where
  left : ∀ k w, (k, w) ∈ running → ∃ x, st.attempts[k]? = some x ∧ w = x.work
  apart : (running.map Prod.fst).Nodup
  ended : ∀ k r, (k, r) ∈ finished → ∃ x, st.attempts[k]? = some x ∧ x.phase = .ended r
  all : ∀ k < st.attempts.length, k ∈ running.map Prod.fst ∨ k ∈ finished.map Prod.fst

namespace Runs

/-- A finished attempt is counted as such. -/
theorem finish {r : Except Fault Unit} (h : st.Runs (running ++ (k, .done r) :: todo) finished) :
    st.Runs (running ++ todo) (finished ++ [(k, r)]) where
  left j w hmem := h.left j w (by
    rcases List.mem_append.mp hmem with hmem | hmem
    · exact List.mem_append_left _ hmem
    · exact List.mem_append_right _ (List.mem_cons_of_mem _ hmem))
  apart := by
    have hnodup := h.apart
    rw [List.map_append, List.map_cons, List.nodup_middle, ← List.map_append] at hnodup
    exact (List.nodup_cons.mp hnodup).2
  ended j r' hmem := by
    rcases List.mem_append.mp hmem with hmem | hmem
    · exact h.ended j r' hmem
    · cases List.mem_singleton.mp hmem
      obtain ⟨x, hx, hwork⟩ := h.left k (.done r) (List.mem_append_right _ List.mem_cons_self)
      exact ⟨x, hx, result?_work.mp (hwork ▸ rfl)⟩
  all j hj := by
    have hall := h.all j hj
    simp only [List.map_append, List.map_cons, List.mem_append, List.mem_cons, List.map_nil,
      List.not_mem_nil, or_false] at hall ⊢
    tauto

/-- A running attempt has a turn, and goes on after the others. -/
theorem turn (h : st.Runs (running ++ (k, w) :: todo) finished) :
    (w.turn st.analyzer).2 = (st.turn k).analyzer ∧
      (st.turn k).Runs (running ++ (k, (w.turn st.analyzer).1) :: todo) finished := by
  obtain ⟨x, hx, rfl⟩ := h.left k w (List.mem_append_right _ List.mem_cons_self)
  have hturn : st.turn k = { st.turn k with analyzer := (x.work.turn st.analyzer).2 } := by
    simp only [Registering.turn, hx]
  have hleft : (x.work.turn st.analyzer).1 = (x.after st.analyzer).work := by rw [Attempt.turn_work]
  have hnodup := h.apart
  rw [List.map_append, List.map_cons, List.nodup_middle, List.nodup_cons, List.mem_append] at hnodup
  refine ⟨by rw [hturn], ?_, ?_, fun j r hmem => ?_, fun j hj => ?_⟩
  · intro j w hmem
    rw [hleft] at hmem
    rcases List.mem_append.mp hmem with hmem | hmem
    · have hne : j ≠ k := fun hjk => hnodup.1 (.inl (List.mem_map.mpr ⟨_, hmem, hjk⟩))
      rw [attempts_turn_of_ne hne]
      exact h.left j w (List.mem_append_left _ hmem)
    · rcases List.mem_cons.mp hmem with hmem | hmem
      · cases hmem
        exact ⟨_, attempts_turn hx, rfl⟩
      · have hne : j ≠ k := fun hjk => hnodup.1 (.inr (List.mem_map.mpr ⟨_, hmem, hjk⟩))
        rw [attempts_turn_of_ne hne]
        exact h.left j w (List.mem_append_right _ (List.mem_cons_of_mem _ hmem))
  · simpa only [List.map_append, List.map_cons] using h.apart
  · obtain ⟨y, hy, hended⟩ := h.ended j r hmem
    exact ⟨y, ended_lasts hy hended [.turn k], hended⟩
  · have hlength : (st.turn k).attempts.length = st.attempts.length := by
      have hnames := congrArg List.length (names_turn st k)
      rwa [Registering.names, Registering.names, List.length_map, List.length_map] at hnames
    simpa only [List.map_append, List.map_cons] using h.all j (hlength ▸ hj)

/-- The rest of a round. -/
theorem takeTurns {g : Gathering Analyzer Unit} (h : st.Runs (g.running ++ todo) g.finished) :
    ∃ is, (Work.takeTurns g st.analyzer todo).2 = (st.turns is).analyzer ∧
      (st.turns is).Runs (Work.takeTurns g st.analyzer todo).1.running
        (Work.takeTurns g st.analyzer todo).1.finished := by
  induction todo generalizing g st with
  | nil =>
    rw [List.append_nil] at h
    exact ⟨[], rfl, h⟩
  | cons kw todo ih =>
    obtain ⟨k, w⟩ := kw
    obtain ⟨hanalyzer, hruns⟩ := h.turn
    rw [takeTurns_cons]
    cases hr : (w.turn st.analyzer).1.result? with
    | some r =>
      rw [takeTurn_of_done hr, hanalyzer]
      rw [eq_done_of_result? hr] at hruns
      obtain ⟨is, hend, hleft⟩ := ih (g := { g with finished := g.finished ++ [(k, r)] }) hruns.finish
      exact ⟨k :: is, hend, hleft⟩
    | none =>
      rw [takeTurn_of_running hr, hanalyzer]
      rw [← List.singleton_append, ← List.append_assoc] at hruns
      obtain ⟨is, hend, hleft⟩ :=
        ih (g := { g with running := g.running ++ [(k, (w.turn st.analyzer).1)] }) hruns
      exact ⟨k :: is, hend, hleft⟩

/-- A running attempt can be finished before the others go on. -/
theorem drive (h : st.Runs ((k, w) :: todo) finished) :
    ∃ is r, w.drive st.analyzer = (r, (st.turns is).analyzer) ∧
      (st.turns is).Runs todo (finished ++ [(k, r)]) := by
  obtain ⟨x, hx, rfl⟩ := h.left k w List.mem_cons_self
  generalize hgo : x.toGo st.analyzer = n
  induction n using Nat.strongRecOn generalizing st x with
  | ind n ih =>
    by_cases hover : x.Over
    · obtain ⟨r, hr⟩ := hover
      have hwork := eq_done_of_result? (result?_work.mpr hr)
      rw [hwork] at h ⊢
      exact ⟨[], r, rfl, finish (show st.Runs ([] ++ _) finished from h)⟩
    · obtain ⟨hanalyzer, hruns⟩ := turn (show st.Runs ([] ++ (k, x.work) :: todo) finished from h)
      rw [Attempt.turn_work] at hruns
      obtain ⟨is, r, hdrive, hend⟩ :=
        ih _ (hgo ▸ Attempt.toGo_after hover st.analyzer _) _ (attempts_turn hx) hruns rfl
      refine ⟨k :: is, r, ?_, hend⟩
      rw [← drive_turn, hanalyzer, Attempt.turn_work]
      exact hdrive

/-- Running attempts are finished one after another. -/
theorem inTurn (h : st.Runs running finished) :
    ∃ is results, (Gathering.inTurn finished running).drive st.analyzer =
      (.ok results, (st.turns is).analyzer) ∧ (st.turns is).Runs [] results := by
  induction running generalizing st finished with
  | nil => exact ⟨[], finished, rfl, h⟩
  | cons kw rest ih =>
    obtain ⟨k, w⟩ := kw
    obtain ⟨is, r, hdrive, hruns⟩ := h.drive
    obtain ⟨js, results, hrest, hend⟩ := ih hruns
    refine ⟨is ++ js, results, ?_, by rwa [turns_append]⟩
    rw [Gathering.inTurn, drive_bind, drive_attempt, hdrive, turns_append]
    exact hrest

/-- After any number of rounds, all attempts are finished in the end. -/
theorem rounds (limit : Nat) (h : st.Runs running finished) :
    ∃ is results, (Gathering.rounds limit running finished).drive st.analyzer =
      (.ok results, (st.turns is).analyzer) ∧ (st.turns is).Runs [] results := by
  induction limit generalizing st running finished with
  | zero => exact h.inTurn
  | succ limit ih =>
    obtain ⟨is, hanalyzer, hruns⟩ := takeTurns (g := ⟨[], finished⟩) h
    show ∃ js results, (if (Work.takeTurns ⟨[], finished⟩ st.analyzer running).1.running.isEmpty
      then pure (Work.takeTurns ⟨[], finished⟩ st.analyzer running).1.finished
      else Gathering.rounds limit _ (Work.takeTurns ⟨[], finished⟩ st.analyzer running).1.finished).drive
        (Work.takeTurns ⟨[], finished⟩ st.analyzer running).2 = _ ∧ _
    rw [hanalyzer]
    split
    case isTrue hempty =>
      rw [List.isEmpty_iff.mp hempty] at hruns
      exact ⟨is, _, rfl, hruns⟩
    case isFalse =>
      obtain ⟨js, results, hdrive, hend⟩ := ih hruns
      exact ⟨is ++ js, results, by rw [turns_append]; exact hdrive, by rwa [turns_append]⟩

end Runs

/-- If no listener raises, a finished attempt has the result of its ending. -/
theorem result_of_ended (hquiet : ∀ level text, st.analyzer.Takes (.log level text)) (hpending : st.Pending i)
    {r : Except Fault Unit} (hx : (st.turns is).attempts[i]? = some x) (hr : x.phase = .ended r) :
    ∃ d ∈ st.endings is, d.position = i ∧ d.ending.result = r := by
  induction is generalizing st with
  | nil =>
    obtain ⟨y, hy, hnot⟩ := hpending
    cases hx.symm.trans hy
    exact absurd ⟨r, hr⟩ hnot
  | cons k rest ih =>
    have hquiet' : ∀ level text, (st.turn k).analyzer.Takes (.log level text) :=
      fun level text => (emits_turn st k).takes (hquiet level text)
    by_cases hends : i = k ∧ (st.ended? k).isSome = true
    · obtain ⟨rfl, hends⟩ := hends
      obtain ⟨d, hended⟩ := Option.isSome_iff_exists.mp hends
      obtain ⟨z, e, hz, he, rfl⟩ := ended?_eq_some hended
      have hz' := attempts_turn hz
      unfold Attempt.after at hz'
      rw [he] at hz'
      have hlasts := ended_lasts hz' rfl (rest.map .turn)
      cases hx.symm.trans hlasts
      cases hr
      refine ⟨_, List.mem_append_left _ (by rw [hended]; exact List.mem_cons_self), rfl, ?_⟩
      exact (Ending.effect_result hquiet e).symm
    · have hpending' : (st.turn k).Pending i := by
        rw [pending_turn_iff]
        · exact hpending
        · rw [not_and_or, Option.not_isSome_iff_eq_none] at hends
          exact hends
      obtain ⟨d, hd, hend⟩ := ih hquiet' hpending' hx
      exact ⟨d, List.mem_append_right _ hd, hend⟩

theorem length_turns (st : Registering) (is : List Nat) :
    (st.turns is).attempts.length = st.attempts.length := by
  have hnames := congrArg List.length (names_turns st is)
  rwa [Registering.names, Registering.names, List.length_map, List.length_map] at hnames

/-- When all attempts are finished, their results are those of the endings. -/
theorem Runs.mem_results_iff {results : List (Nat × Except Fault Unit)} (h : (st.turns is).Runs [] results)
    (hquiet : ∀ level text, st.analyzer.Takes (.log level text))
    (hpending : ∀ k < st.attempts.length, st.Pending k) {r : Except Fault Unit} :
    (∃ k, (k, r) ∈ results) ↔ ∃ d ∈ st.endings is, d.ending.result = r := by
  have hended : ∀ k r, (k, r) ∈ results → ∃ d ∈ st.endings is, d.position = k ∧ d.ending.result = r := by
    intro k r hkr
    obtain ⟨x, hx, hphase⟩ := h.ended k r hkr
    have hk := (List.getElem?_eq_some_iff.mp hx).1
    rw [length_turns] at hk
    exact result_of_ended hquiet (hpending k hk) hx hphase
  constructor
  · rintro ⟨k, hkr⟩
    obtain ⟨d, hd, -, hr⟩ := hended k r hkr
    exact ⟨d, hd, hr⟩
  · rintro ⟨d, hd, rfl⟩
    obtain ⟨-, x, hx, -⟩ := (mem_endings_iff is).mp (List.mem_map_of_mem (f := Ended.position) hd)
    rcases h.all _ (List.getElem?_eq_some_iff.mp hx).1 with hrunning | hfinished
    · cases hrunning
    · obtain ⟨⟨k, r⟩, hkr, hk⟩ := List.mem_map.mp hfinished
      obtain ⟨d', hd', hk', hr⟩ := hended k r hkr
      -- no two endings have the same position
      obtain rfl : d' = d := List.inj_on_of_nodup_map (endings_nodup is) hd' hd (hk'.trans hk)
      exact ⟨k, hr ▸ hkr⟩

end Registering

/-! ## One call -/

/-- The log event for a plugin that was written for a newer interface. -/
def Plugin.warnings (p : Plugin) (names : List String) : List (Event LogLevel) :=
  if supportedApi < p.apiVersion then [.log .warn (Diagnostic.futureApi p.apiVersion names).text] else []

namespace Analyzer

open Registering

/-- `addPlugin` before any attempt has had a turn. The plugin may make a different engine for every attempt. -/
def calling (a : Analyzer) (p : Plugin) (makes : Nat → String → EngineConfig → Delayed Engine) :
    Registering :=
  ({ analyzer := a } : Registering).call p makes

variable {a : Analyzer} {p : Plugin} {names : List String}
variable {makes : Nat → String → EngineConfig → Delayed Engine}

theorem openPlugin_of_error {f : Fault} (hnames : p.names = .error f) (a : Analyzer) :
    openPlugin p a = (.error (.plugin (.pluginNames f.text)), a) := by
  rw [openPlugin, hnames]
  rfl

theorem openPlugin_of_names (hnames : p.names = .ok names)
    (hquiet : ∀ level text, a.Takes (.log level text)) :
    (openPlugin p a).1 = .ok names ∧ Emits (p.warnings names) a (openPlugin p a).2 := by
  rw [openPlugin, hnames, Plugin.warnings]
  by_cases hnewer : supportedApi < p.apiVersion
  · simp only [if_pos hnewer]
    have hsaid : say .warn (.futureApi p.apiVersion names) a =
        (.ok (), (say .warn (.futureApi p.apiVersion names) a).2) :=
      Prod.ext (Ending.say_of_takes (hquiet _ _)) rfl
    show ((say .warn (.futureApi p.apiVersion names) >>= fun _ => pure names : Effect Analyzer _) a).1 = _ ∧
      Emits _ a ((say .warn (.futureApi p.apiVersion names) >>= fun _ => pure names : Effect Analyzer _) a).2
    rw [effect_bind, hsaid]
    exact ⟨rfl, Ending.emits_say _ _ a⟩
  · simp only [if_neg hnewer]
    exact ⟨rfl, .refl a⟩

theorem calling_attempts (hopen : (openPlugin p a).1 = .ok names)
    (makes : Nat → String → EngineConfig → Delayed Engine) (i : Nat) :
    (a.calling p makes).attempts[i]? =
      names[i]?.map fun name => ⟨name, .ready { p with make := makes i }⟩ := by
  rw [calling, Registering.call, hopen]
  exact List.getElem?_mapIdx

theorem calling_names (hopen : (openPlugin p a).1 = .ok names) : (a.calling p makes).names = names := by
  refine List.ext_getElem? fun i => ?_
  rw [Registering.names, List.getElem?_map, calling_attempts hopen, Option.map_map]
  exact Option.map_id_apply

theorem calling_makes (hopen : (openPlugin p a).1 = .ok names)
    (makes : Nat → String → EngineConfig → Delayed Engine) :
    (a.calling p makes).Makes makes := by
  intro i x hx
  rw [calling_attempts hopen, Option.map_eq_some_iff] at hx
  obtain ⟨name, -, rfl⟩ := hx
  exact rfl

theorem calling_runs (hopen : (openPlugin p a).1 = .ok names) :
    (a.calling p fun _ => p.make).Runs (positioned (names.map (addEngine p))) [] where
  left k w hmem := by
    obtain ⟨i, hi, hkw⟩ := List.mem_mapIdx.mp hmem
    cases hkw
    rw [List.length_map] at hi
    refine ⟨_, (calling_attempts hopen _ k).trans (by rw [List.getElem?_eq_getElem hi]; rfl), ?_⟩
    rw [List.getElem_map]
    rfl
  apart := by
    rw [positioned, mapIdx_pair_fst]
    exact List.nodup_range
  ended k r hmem := by cases hmem
  all k hk := by
    refine .inl ?_
    rw [positioned, mapIdx_pair_fst, List.mem_range, List.length_map]
    rwa [← List.length_map Attempt.name, ← Registering.names, calling_names hopen] at hk

theorem calling_pending_iff (hopen : (openPlugin p a).1 = .ok names) {i : Nat} :
    (a.calling p makes).Pending i ↔ i < names.length := by
  constructor
  · rintro ⟨x, hx, -⟩
    rw [calling_attempts hopen, Option.map_eq_some_iff] at hx
    obtain ⟨name, hname, -⟩ := hx
    exact (List.getElem?_eq_some_iff.mp hname).1
  · intro hi
    refine ⟨_, by rw [calling_attempts hopen, List.getElem?_eq_getElem hi]; rfl, ?_⟩
    rintro ⟨_, hover⟩
    cases hover

/-! ## The accounts of a call -/

/-- The accounts of a call of `addPlugin`: one ending for each listed position, each the one that is due; one
event for each ending, in order, after the warning of the plugin; and the registry with the entries of the
endings added. -/
structure Accounts (a : Analyzer) (p : Plugin) (names : List String)
    (makes : Nat → String → EngineConfig → Delayed Engine) (ds : List Ended) (b : Analyzer) : Prop where
  once : (ds.map Ended.position).Perm (List.range names.length)
  /-- A name is taken if it was registered before the call, or by an earlier ending. -/
  due : ∀ before d after, ds = before ++ d :: after →
    names[d.position]? = some d.name ∧
      Ending.Due d.name (a.config.engine d.name)
        (makes d.position d.name (a.config.engine d.name)).outcome
        (d.name ∈ a.engineNames ∨ ∃ k ∈ before, k.name = d.name ∧ k.entry?.isSome = true) d.ending
  emitted : ∃ es, ds.map Ended.event? = es.map some ∧ Emits (p.warnings names ++ es) a b
  registry : b.slots.entries = a.slots.entries ++ ds.filterMap Ended.entry?

/-- No engine that is made for these names raises when it is asked for its name. -/
def SayTheirNames (a : Analyzer) (names : List String)
    (makes : Nat → String → EngineConfig → Delayed Engine) : Prop :=
  ∀ (i : Nat) (name : String) (engine : Engine), names[i]? = some name →
    (makes i name (a.config.engine name)).outcome = .ok engine → ∃ reported, engine.reportedName = .ok reported

theorem map_of_isSome {α β : Type} {f : α → Option β} {l : List α} (h : ∀ x ∈ l, (f x).isSome = true) :
    l.map f = (l.filterMap f).map some := by
  induction l with
  | nil => rfl
  | cons x rest ih =>
    obtain ⟨y, hy⟩ := Option.isSome_iff_exists.mp (h x List.mem_cons_self)
    rw [List.map_cons, List.filterMap_cons_some hy, List.map_cons, hy,
      ih fun x hx => h x (List.mem_cons_of_mem _ hx)]

theorem event?_isSome {name : String} {config : EngineConfig} {made : Except Fault Engine} {taken : Prop}
    {e : Ending} (h : Ending.Due name config made taken e)
    (hsay : ∀ engine, made = .ok engine → ∃ reported, engine.reportedName = .ok reported) :
    (e.event? name).isSome = true := by
  cases h with
  | @nameless engine f hmade hname =>
    obtain ⟨reported, hreported⟩ := hsay engine hmade
    rw [hname] at hreported
    cases hreported
  | _ => rfl

variable {is : List Nat}

/-- Opening the plugin does not change on which log messages listeners raise. -/
theorem calling_quiet (hnames : p.names = .ok names) (hquiet : ∀ level text, a.Takes (.log level text))
    (level : LogLevel) (text : String) : (a.calling p makes).analyzer.Takes (.log level text) :=
  (openPlugin_of_names hnames hquiet).2.takes (hquiet level text)

/-- The endings of a call are due with respect to the registry before the call. -/
theorem calling_due (hnames : p.names = .ok names) (hquiet : ∀ level text, a.Takes (.log level text))
    {before after : List Ended} {d : Ended}
    (hsplit : (a.calling p makes).endings is = before ++ d :: after) :
    names[d.position]? = some d.name ∧
      Ending.Due d.name (a.config.engine d.name)
        (makes d.position d.name (a.config.engine d.name)).outcome
        (d.name ∈ a.engineNames ∨ ∃ k ∈ before, k.name = d.name ∧ k.entry?.isSome = true) d.ending := by
  obtain ⟨hopen, hemitted⟩ := openPlugin_of_names hnames hquiet
  have hslots : (a.calling p makes).analyzer.engineNames = a.engineNames :=
    congrArg OrderedMap.keys (openPlugin_slots p a)
  have hconfig : (a.calling p makes).analyzer.config = a.config := hemitted.config
  have hdue := endings_due (calling_makes hopen makes) (calling_quiet hnames hquiet) hsplit
  rwa [calling_names hopen, hslots, hconfig] at hdue

theorem calling_event? (hnames : p.names = .ok names) (hquiet : ∀ level text, a.Takes (.log level text))
    (hsay : SayTheirNames a names makes) :
    ∀ d ∈ (a.calling p makes).endings is, d.event?.isSome = true := by
  intro d hd
  obtain ⟨before, after, hsplit⟩ := List.append_of_mem hd
  obtain ⟨hname, hdue⟩ := calling_due hnames hquiet hsplit
  exact event?_isSome hdue fun engine hmade => hsay _ _ engine hname hmade

/-- Once all attempts of a call are finished, there is one ending for each listed position. -/
theorem calling_once (hopen : (openPlugin p a).1 = .ok names)
    (hall : ∀ i < names.length, ((a.calling p makes).turns is).Finished i) :
    (((a.calling p makes).endings is).map Ended.position).Perm (List.range names.length) := by
  rw [List.perm_ext_iff_of_nodup (endings_nodup is) List.nodup_range]
  intro i
  rw [mem_endings_iff, calling_pending_iff hopen, List.mem_range]
  exact and_iff_left_of_imp (hall i)

/-- A call adds the entries of its endings to the registry. -/
theorem calling_entries (hnames : p.names = .ok names) (hquiet : ∀ level text, a.Takes (.log level text))
    (is : List Nat) :
    ((a.calling p makes).turns is).analyzer.slots.entries =
      a.slots.entries ++ ((a.calling p makes).endings is).filterMap Ended.entry? := by
  rw [turns_entries (calling_quiet hnames hquiet)]
  exact congrArg (· ++ _) (congrArg OrderedMap.entries (openPlugin_slots p a))

/-- Under every order of turns, the accounts of a call are complete once all attempts are finished. -/
theorem calling_accounts (hnames : p.names = .ok names) (hquiet : ∀ level text, a.Takes (.log level text))
    (hsay : SayTheirNames a names makes)
    (hall : ∀ i < names.length, ((a.calling p makes).turns is).Finished i) :
    Accounts a p names makes ((a.calling p makes).endings is) ((a.calling p makes).turns is).analyzer := by
  obtain ⟨hopen, hemitted⟩ := openPlugin_of_names hnames hquiet
  refine ⟨calling_once hopen hall, fun _ _ _ hsplit => calling_due hnames hquiet hsplit, ?_,
    calling_entries hnames hquiet is⟩
  refine ⟨((a.calling p makes).endings is).filterMap Ended.event?, ?_, hemitted.trans (turns_emit is)⟩
  exact map_of_isSome (calling_event? hnames hquiet hsay)

/-- The endings for a name are those of a call for this name only, whatever else that registry has and
whatever is made for the other names. -/
theorem calling_own {b : Analyzer} {q : Plugin} {makes' : Nat → String → EngineConfig → Delayed Engine}
    {name : String} (hopen : (openPlugin p a).1 = .ok names)
    (hopen' : (openPlugin q b).1 = .ok (names.filter fun other => other = name))
    (hsame : b.isRegistered name = a.isRegistered name)
    (hmakes : ∀ i, names[i]? = some name →
      makes' (rank names name i) name (a.config.engine name) = makes i name (a.config.engine name))
    (hconfig : (a.calling p makes).analyzer.config = a.config)
    (hconfig' : (b.calling q makes').analyzer.config.engine name = a.config.engine name) (is : List Nat) :
    (((a.calling p makes).endings is).filter fun d => d.name = name).map Ended.ending =
      ((b.calling q makes').endings (own names name is)).map Ended.ending := by
  have hregistered : (a.calling p makes).analyzer.isRegistered name = a.isRegistered name := by
    unfold isRegistered
    exact congrArg (OrderedMap.contains · name) (openPlugin_slots p a)
  have hregistered' : (b.calling q makes').analyzer.isRegistered name = b.isRegistered name := by
    unfold isRegistered
    exact congrArg (OrderedMap.contains · name) (openPlugin_slots q b)
  suffices hmirrors : Mirrors names name (a.config.engine name) (a.calling p makes) (b.calling q makes') from
    hmirrors.endings_own is
  refine ⟨calling_names hopen, ?_, ?_, hconfig', ?_⟩
  · rw [hregistered, hregistered', hsame]
  · rw [hconfig]
  · intro i hi
    have hcount : rank names name i < names.count name := by
      have hlt := rank_lt_rank hi (List.getElem?_eq_some_iff.mp hi).1
      rwa [rank, rank, List.take_length] at hlt
    have hrank : (names.filter fun other => other = name)[rank names name i]? = some name := by
      rw [List.filter_eq, List.getElem?_replicate_of_lt hcount]
    have hx := calling_attempts hopen makes i
    have hy := calling_attempts hopen' makes' (rank names name i)
    rw [hi] at hx
    rw [hrank] at hy
    exact ⟨_, _, hx, hy, .ready (hmakes i hi).symm⟩

/-- `gather` has turns of the attempts until all of them are finished. It fails if one of their endings does. -/
theorem calling_gather (hnames : p.names = .ok names) (hquiet : ∀ level text, a.Takes (.log level text))
    (limit : Nat) :
    ∃ is r, (gather limit (names.map (addEngine p))).drive (openPlugin p a).2 =
        (r, ((a.calling p fun _ => p.make).turns is).analyzer) ∧
      (∀ i < names.length, ((a.calling p fun _ => p.make).turns is).Finished i) ∧
      ((∃ vs, r = .ok vs) ∧ (∀ d ∈ (a.calling p fun _ => p.make).endings is, d.ending.result = .ok ()) ∨
        ∃ f, r = .error f ∧ ∃ d ∈ (a.calling p fun _ => p.make).endings is, d.ending.result = .error f) := by
  obtain ⟨hopen, -⟩ := openPlugin_of_names hnames hquiet
  obtain ⟨is, results, hrounds, hruns⟩ := (calling_runs hopen).rounds limit
  have hrounds' : (Gathering.rounds limit (positioned (names.map (addEngine p))) []).drive (openPlugin p a).2 =
      (.ok results, ((a.calling p fun _ => p.make).turns is).analyzer) := hrounds
  have hlength : (a.calling p fun _ => p.make).attempts.length = names.length := by
    rw [← List.length_map Attempt.name, ← Registering.names, calling_names hopen]
  have hresults : ∀ {r}, (∃ k, (k, r) ∈ results) ↔
      ∃ d ∈ (a.calling p fun _ => p.make).endings is, d.ending.result = r :=
    hruns.mem_results_iff (calling_quiet hnames hquiet) fun k hk => by
      rwa [calling_pending_iff hopen, ← hlength]
  have hall : ∀ i < names.length, ((a.calling p fun _ => p.make).turns is).Finished i := by
    intro i hi
    rcases hruns.all i (by rwa [length_turns, hlength]) with hrunning | hfinished
    · cases hrunning
    · obtain ⟨⟨k, r⟩, hkr, rfl⟩ := List.mem_map.mp hfinished
      obtain ⟨x, hx, hphase⟩ := hruns.ended k r hkr
      exact ⟨x, hx, r, hphase⟩
  cases hfailure : Gathering.failure? results with
  | none =>
    refine ⟨is, .ok (Gathering.inOrder (Gathering.successes results) (names.map (addEngine p)).length), ?_,
      hall, .inl ⟨⟨_, rfl⟩, fun d hd => ?_⟩⟩
    · rw [gather, drive_bind, hrounds']
      simp only [Gathering.together, hfailure]
      rfl
    · rw [failure?_eq, List.findSome?_eq_none_iff] at hfailure
      obtain ⟨k, hkr⟩ := hresults.mpr ⟨d, hd, rfl⟩
      obtain ⟨u, hu⟩ := faultOf_eq_none_iff.mp (hfailure _ hkr)
      exact hu
  | some f =>
    refine ⟨is, .error f, ?_, hall, .inr ⟨f, rfl, hresults.mp ?_⟩⟩
    · rw [gather, drive_bind, hrounds']
      simp only [Gathering.together, hfailure]
      rfl
    · rw [failure?_eq] at hfailure
      obtain ⟨⟨k, r⟩, hkr, hr⟩ := List.exists_of_findSome?_eq_some hfailure
      exact ⟨k, faultOf_eq_some_iff.mp hr ▸ hkr⟩

theorem addPlugin_of_error {f : Fault} (hnames : p.names = .error f) (a : Analyzer) :
    (addPlugin p).drive a = (.error (.plugin (.pluginNames f.text)), a) := by
  rw [addPlugin, drive_bind, drive_now, openPlugin_of_error hnames]

/-- `addPlugin` run alone is one of the orders of turns, up to the end of all attempts. It fails if one of the
endings does. -/
theorem addPlugin_course (hnames : p.names = .ok names) (hquiet : ∀ level text, a.Takes (.log level text)) :
    ∃ is r, (addPlugin p).drive a = (r, ((a.calling p fun _ => p.make).turns is).analyzer) ∧
      (∀ i < names.length, ((a.calling p fun _ => p.make).turns is).Finished i) ∧
      (r = .ok () ∧ (∀ d ∈ (a.calling p fun _ => p.make).endings is, d.ending.result = .ok ()) ∨
        ∃ f, r = .error f ∧ ∃ d ∈ (a.calling p fun _ => p.make).endings is, d.ending.result = .error f) := by
  have hopened : openPlugin p a = (.ok names, (openPlugin p a).2) :=
    Prod.ext (openPlugin_of_names hnames hquiet).1 rfl
  obtain ⟨is, r, hgather, hall, hr⟩ := calling_gather hnames hquiet (p.roundLimit (openPlugin p a).2.config + 1)
  have hdrive : (addPlugin p).drive a = ((gather (p.roundLimit (openPlugin p a).2.config + 1)
      (names.map (addEngine p))).bind fun _ => pure ()).drive (openPlugin p a).2 := by
    rw [addPlugin, drive_bind, drive_now, hopened]
    rfl
  rw [drive_bind, hgather] at hdrive
  rcases hr with ⟨⟨vs, rfl⟩, hends⟩ | ⟨f, rfl, hends⟩
  · exact ⟨is, .ok (), hdrive, hall, .inl ⟨rfl, hends⟩⟩
  · exact ⟨is, .error f, hdrive, hall, .inr ⟨f, rfl, hends⟩⟩

theorem addPlugin_drive (hnames : p.names = .ok names) (hquiet : ∀ level text, a.Takes (.log level text))
    (hsay : SayTheirNames a names fun _ => p.make) :
    ∃ is, (addPlugin p).drive a = (.ok (), ((a.calling p fun _ => p.make).turns is).analyzer) ∧
      ∀ i < names.length, ((a.calling p fun _ => p.make).turns is).Finished i := by
  obtain ⟨is, r, hdrive, hall, ⟨rfl, -⟩ | ⟨f, rfl, d, hd, hf⟩⟩ := addPlugin_course hnames hquiet
  · exact ⟨is, hdrive, hall⟩
  · have hok := Ending.result_eq_ok_iff.mpr (calling_event? hnames hquiet hsay d hd)
    rw [hf] at hok
    cases hok

/-- A plugin that lists one name twice, makes an engine of another name for the next one, and fails for the
last one. -/
def mixedPlugin : Plugin where
  names := .ok ["tabs", "tabs", "lines", "words"]
  make name _ :=
    { rounds := if name = "tabs" then 1 else 0
      outcome := if name = "words" then .error (.raised .runtime "No words.") else
        .ok (.external
          { name := .ok "tabs"
            describe := fun _ => { outcome := .ok (.arr []) }
            run := fun _ _ => { report := .error (.raised .runtime "Out of order.") } }) }

/-- An analyzer in an empty folder, without listeners. -/
def noListeners : Analyzer where
  host := ⟨.folder [], [], "/", []⟩

end Analyzer

end Polyscan
