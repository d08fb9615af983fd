import Polyscan.Proofs.Registration.Attempt

/-!
Concurrent registrations. Plugins are added at any moment, every name that a plugin lists is an attempt of its
own, and attempts have their turns in any order, so engines are completed in any order as well.
-/
namespace Polyscan

open Analyzer

/-- The analyzer, the attempts in the order in which they were asked for, and the completed engines that
report the name of their attempt, in the order of completion. -/
structure Registering where
  analyzer : Analyzer
  attempts : List Attempt := []
  completed : List (String × Engine) := []

/-- A step: a plugin is added, or an attempt has its turn. A plugin may make a different engine for every
attempt, even for equal names. -/
inductive Move where
  | call (p : Plugin) (makes : Nat → String → EngineConfig → Delayed Engine)
  | turn (attempt : Nat)

namespace Registering

/-- An analyzer without engines. -/
def start (a : Analyzer) : Registering := { analyzer := { a with slots := .empty } }

/-- Begins to add a plugin. There are no attempts if its names cannot be listed. -/
def call (st : Registering) (p : Plugin) (makes : Nat → String → EngineConfig → Delayed Engine) :
    Registering :=
  { st with
    analyzer := (openPlugin p st.analyzer).2
    attempts := st.attempts ++
      match (openPlugin p st.analyzer).1 with
      | .ok names => names.mapIdx fun i name => ⟨name, .ready { p with make := makes i }⟩
      | .error _ => [] }

/-- Gives an attempt its turn. -/
def turn (st : Registering) (i : Nat) : Registering :=
  match st.attempts[i]? with
  | none => st
  | some x =>
    { analyzer := (x.work.turn st.analyzer).2
      attempts := st.attempts.set i (x.after st.analyzer)
      completed := st.completed ++ (x.completion? st.analyzer).toList.map fun engine => (x.name, engine) }

def step (st : Registering) : Move → Registering
  | .call p makes => st.call p makes
  | .turn i => st.turn i

def play (st : Registering) (moves : List Move) : Registering := moves.foldl step st

variable {st : Registering} {i : Nat} {x : Attempt}

theorem play_append (st : Registering) (moves more : List Move) :
    st.play (moves ++ more) = (st.play moves).play more :=
  List.foldl_append

theorem play_snoc (st : Registering) (moves : List Move) (m : Move) :
    st.play (moves ++ [m]) = (st.play moves).step m := by
  rw [play_append]
  rfl

/-! ## One turn -/

theorem turn_of_none (hx : st.attempts[i]? = none) : st.turn i = st := by
  simp [turn, hx]

/-- A turn in which the attempt does not end. -/
theorem turn_of_waiting (hx : st.attempts[i]? = some x) (he : x.ending? st.analyzer = none) :
    st.turn i = { st with attempts := st.attempts.set i (x.after st.analyzer) } := by
  simp [turn, hx, he, Attempt.turn_work, Attempt.completion?_eq]

/-- A turn in which the attempt ends. -/
theorem turn_of_ending {e : Ending} (hx : st.attempts[i]? = some x)
    (he : x.ending? st.analyzer = some e) :
    st.turn i =
      { analyzer := (e.effect x.name st.analyzer).2
        attempts := st.attempts.set i { x with phase := .ended (e.effect x.name st.analyzer).1 }
        completed := st.completed ++ e.engine?.toList.map fun engine => (x.name, engine) } := by
  simp [turn, hx, he, Attempt.turn_work, Attempt.after, Attempt.completion?_eq]

/-! ## The invariant -/

/-- The registry has the first completed engine of each name, in the order of completion. -/
structure Settled (st : Registering) : Prop where
  reported : ∀ c ∈ st.completed, c.2.reportedName = .ok c.1
  names : st.analyzer.engineNames = (st.completed.map Prod.fst).eraseDups
  first : ∀ name, (st.analyzer.slots.get? name).map Slot.engine = OrderedMap.find name st.completed

theorem isRegistered_iff {a : Analyzer} {name : String} :
    a.isRegistered name = true ↔ name ∈ a.engineNames :=
  OrderedMap.contains_iff a.slots name

theorem settled_start (a : Analyzer) : (start a).Settled where
  reported c hc := by cases hc
  names := rfl
  first name := rfl

namespace Settled

variable {st' : Registering} {name : String} {engine : Engine}

/-- Without a new completion and with the same registry, it stays settled. -/
theorem of_same (h : st.Settled) (hslots : st'.analyzer.slots = st.analyzer.slots)
    (hcompleted : st'.completed = st.completed) : st'.Settled where
  reported := by rw [hcompleted]; exact h.reported
  names := by rw [hcompleted, engineNames, hslots]; exact h.names
  first := by rw [hcompleted, hslots]; exact h.first

theorem mem_engineNames_iff (h : st.Settled) :
    name ∈ st.analyzer.engineNames ↔ name ∈ st.completed.map Prod.fst := by
  rw [h.names, List.mem_eraseDups]

/-- A later completion for a registered name changes nothing. -/
theorem of_late (h : st.Settled) (hslots : st'.analyzer.slots = st.analyzer.slots)
    (hcompleted : st'.completed = st.completed ++ [(name, engine)])
    (hreported : engine.reportedName = .ok name) (hmem : name ∈ st.analyzer.engineNames) :
    st'.Settled := by
  -- an engine of that name was completed before, so neither the first one nor the order of names changes
  have hearlier : name ∈ st.completed.map Prod.fst := h.mem_engineNames_iff.mp hmem
  exact
    { reported := by
        rw [hcompleted, List.forall_mem_append]
        exact ⟨h.reported, by simpa using hreported⟩
      names := by
        rw [hcompleted, engineNames, hslots, List.map_append, List.map_singleton, OrderedMap.eraseDups_snoc,
          if_pos hearlier]
        exact h.names
      first := by
        intro other
        rw [hcompleted, hslots, h.first, OrderedMap.find_append]
        by_cases hname : name = other
        · subst hname
          rw [← OrderedMap.find_isSome_iff, Option.isSome_iff_exists] at hearlier
          obtain ⟨e, he⟩ := hearlier
          simp [he]
        · simp [OrderedMap.find, hname] }

/-- The first completion for a name is registered. -/
theorem of_kept (h : st.Settled) {slot : Slot}
    (hslots : st'.analyzer.slots = st.analyzer.slots.insert name slot) (hslot : slot.engine = engine)
    (hcompleted : st'.completed = st.completed ++ [(name, engine)])
    (hreported : engine.reportedName = .ok name) (hnew : name ∉ st.analyzer.engineNames) :
    st'.Settled := by
  have hnone : OrderedMap.find name st.completed = none := by
    rw [← Option.not_isSome_iff_eq_none, OrderedMap.find_isSome_iff]
    exact fun hmem => hnew (h.mem_engineNames_iff.mpr hmem)
  have hnames : st'.analyzer.engineNames = st.analyzer.engineNames ++ [name] := by
    rw [engineNames, hslots, OrderedMap.keys_insert]
    exact if_neg hnew
  exact
    { reported := by
        rw [hcompleted, List.forall_mem_append]
        exact ⟨h.reported, by simpa using hreported⟩
      names := by
        rw [hcompleted, hnames, List.map_append, List.map_singleton, OrderedMap.eraseDups_snoc,
          if_neg fun hmem => hnew (h.mem_engineNames_iff.mpr hmem), h.names]
      first := by
        intro other
        rw [hcompleted, hslots, OrderedMap.get?_insert, OrderedMap.find_append]
        by_cases hname : name = other
        · subst hname
          simp [hnone, OrderedMap.find, hslot]
        · simp [OrderedMap.find, hname, h.first] }

theorem turn (h : st.Settled) (i : Nat) : (st.turn i).Settled := by
  cases hx : st.attempts[i]? with
  | none => rwa [turn_of_none hx]
  | some x =>
    cases he : x.ending? st.analyzer with
    | none =>
      rw [turn_of_waiting hx he]
      exact h.of_same rfl rfl
    | some e =>
      rw [turn_of_ending hx he]
      have hslots := e.effect_slots x.name st.analyzer
      have hreported : ∀ engine, e.engine? = some engine → engine.reportedName = .ok x.name := by
        intro engine hengine
        exact (Attempt.completion?_eq_some_iff.mp (by rw [Attempt.completion?_eq, he]; exact hengine)).2
      -- a duplicate comes too late, an engine that is kept has a new name, and no other ending has an engine
      cases e with
      | duplicate made =>
        have hregistered := isRegistered_iff.mp (Attempt.isRegistered_of_duplicate he)
        cases made with
        | none => exact h.of_same hslots (List.append_nil _)
        | some engine => exact h.of_late hslots rfl (hreported engine rfl) hregistered
      | kept config engine =>
        refine h.of_kept hslots rfl rfl (hreported engine rfl) fun hregistered => ?_
        have hnew := Attempt.not_isRegistered_of_kept he
        rw [isRegistered_iff.mpr hregistered] at hnew
        cases hnew
      | _ => exact h.of_same hslots (List.append_nil _)

theorem step (h : st.Settled) (m : Move) : (st.step m).Settled := by
  cases m with
  | call p makes => exact h.of_same (openPlugin_slots p st.analyzer) rfl
  | turn i => exact h.turn i

theorem play (h : st.Settled) (moves : List Move) : (st.play moves).Settled := by
  induction moves generalizing st with
  | nil => exact h
  | cons m rest ih => exact ih (h.step m)

end Settled

end Registering

end Polyscan
