import Polyscan.Proofs.Registration.Accounting

/-!
Attempts for one name among those for others. Their endings depend on the engines that are made for them, on
the order of their own turns, and on whether the name was registered before: they are those of a call for this
name only, in any registry.
-/
namespace Polyscan

open Analyzer

/-! ## Alike attempts -/

namespace Attempt

/-- Two attempts for a name are in the same phase, and the same is made for them. -/
inductive Alike (name : String) (config : EngineConfig) : Attempt → Attempt → Prop
  | ready {p q : Plugin} (h : p.make name config = q.make name config) :
      Alike name config ⟨name, .ready p⟩ ⟨name, .ready q⟩
  | making (config' : EngineConfig) (rounds : Nat) (made : Except Fault Engine) :
      Alike name config ⟨name, .making config' rounds made⟩ ⟨name, .making config' rounds made⟩
  | ended (result result' : Except Fault Unit) : Alike name config ⟨name, .ended result⟩ ⟨name, .ended result'⟩

namespace Alike

variable {name : String} {config : EngineConfig} {x y : Attempt} {a b : Analyzer}

theorem ofMade_congr (hregistered : a.isRegistered name = b.isRegistered name) (config : EngineConfig)
    (made : Except Fault Engine) : Ending.ofMade a name config made = Ending.ofMade b name config made := by
  simp only [Ending.ofMade, hregistered]

/-- Alike attempts have the same ending in registries that agree about the name. -/
theorem ending? (h : Alike name config x y) (hregistered : a.isRegistered name = b.isRegistered name)
    (ha : a.config.engine name = config) (hb : b.config.engine name = config) :
    x.ending? a = y.ending? b := by
  cases h with
  | @ready p q h =>
    have hmade : made? ⟨name, .ready p⟩ a = made? ⟨name, .ready q⟩ b := by
      simp only [made?, ha, hb, h, hregistered]
    simp only [Attempt.ending?, hmade, isRefused, hregistered, ofMade_congr hregistered]
    rfl
  | making config' rounds made =>
    have hmade : made? ⟨name, .making config' rounds made⟩ a = made? ⟨name, .making config' rounds made⟩ b := by
      cases rounds <;> rfl
    simp only [Attempt.ending?, hmade, isRefused, ofMade_congr hregistered]
    rfl
  | ended result result' => rfl

theorem after (h : Alike name config x y) (hregistered : a.isRegistered name = b.isRegistered name)
    (ha : a.config.engine name = config) (hb : b.config.engine name = config) :
    Alike name config (x.after a) (y.after b) := by
  have hsame := h.ending? hregistered ha hb
  unfold Attempt.after
  rw [hsame]
  cases y.ending? b with
  | some e =>
    cases h with
    | ready h => exact .ended _ _
    | making config' rounds made => exact .ended _ _
    | ended result result' => exact .ended _ _
  | none =>
    cases h with
    | ready h =>
      simp only [ha, hb, h]
      exact .making _ _ _
    | making config' rounds made => exact .making _ _ _
    | ended result result' => exact .ended _ _

end Alike

end Attempt

namespace Registering

/-! ## Turns of the attempts for a name -/

/-- The position of an attempt among those for its name. -/
def rank (names : List String) (name : String) (i : Nat) : Nat := (names.take i).count name

/-- The turns of the attempts for a name, by their positions among these attempts. -/
def own (names : List String) (name : String) (is : List Nat) : List Nat :=
  (is.filter fun i => names[i]? = some name).map (rank names name)

variable {names : List String} {name : String} {st st' : Registering} {i j : Nat} {is : List Nat}

theorem rank_lt_rank (hi : names[i]? = some name) (hlt : i < j) : rank names name i < rank names name j := by
  have hnext : rank names name (i + 1) = rank names name i + 1 := by
    rw [rank, List.take_add_one, hi, List.count_append]
    simp [rank]
  have hmono : rank names name (i + 1) ≤ rank names name j :=
    (List.take_sublist_take_left hlt).count_le name
  omega

theorem rank_injective (hi : names[i]? = some name) (hj : names[j]? = some name)
    (h : rank names name i = rank names name j) : i = j := by
  rcases Nat.lt_trichotomy i j with hlt | heq | hlt
  · have hranks := rank_lt_rank hi hlt
    omega
  · exact heq
  · have hranks := rank_lt_rank hj hlt
    omega

/-- The attempts of `st` for a name are alike to those of `st'` at their positions, and the registries agree
about the name. -/
structure Mirrors (names : List String) (name : String) (config : EngineConfig) (st st' : Registering) :
    Prop where
  listed : st.names = names
  registered : st.analyzer.isRegistered name = st'.analyzer.isRegistered name
  configured : st.analyzer.config.engine name = config
  configured' : st'.analyzer.config.engine name = config
  attempts : ∀ i, names[i]? = some name → ∃ x y, st.attempts[i]? = some x ∧
    st'.attempts[rank names name i]? = some y ∧ x.Alike name config y

/-- An ending for another name does not change whether the name is registered. -/
theorem isRegistered_effect {e : Ending} {other : String} {a : Analyzer} (h : other ≠ name) :
    (e.effect other a).2.isRegistered name = a.isRegistered name := by
  have hget : (e.effect other a).2.slots.get? name = a.slots.get? name := by
    rw [e.effect_slots]
    cases e with
    | kept config engine => exact (OrderedMap.get?_insert _ _ _ _).trans (if_neg h)
    | _ => rfl
  rw [Bool.eq_iff_iff, isRegistered_iff, isRegistered_iff, engineNames, engineNames, OrderedMap.mem_keys_iff,
    OrderedMap.mem_keys_iff, hget]

theorem isRegistered_effect_congr {e : Ending} {a b : Analyzer}
    (h : a.isRegistered name = b.isRegistered name) :
    (e.effect name a).2.isRegistered name = (e.effect name b).2.isRegistered name := by
  cases e with
  | kept config engine =>
    have hkept : ∀ a : Analyzer, (Ending.effect name (.kept config engine) a).2.isRegistered name = true := by
      intro a
      rw [isRegistered_iff, engineNames, Ending.effect_slots, OrderedMap.keys_insert]
      split
      case isTrue hmem => exact hmem
      case isFalse => exact List.mem_append_right _ List.mem_cons_self
    rw [hkept, hkept]
  | _ =>
    unfold isRegistered
    rw [Ending.effect_slots, Ending.effect_slots]
    exact h

namespace Mirrors

variable {config : EngineConfig} (h : Mirrors names name config st st')

include h

/-- Turns of attempts for other names do not affect those for the name. -/
theorem turn_other (hi : names[i]? ≠ some name) : Mirrors names name config (st.turn i) st' := by
  have hsame : (st.turn i).analyzer.isRegistered name = st.analyzer.isRegistered name := by
    cases hended : st.ended? i with
    | none => rw [turn_of_not_ended hended]
    | some d =>
      rw [turn_of_ended? hended]
      refine isRegistered_effect fun hname => hi ?_
      obtain ⟨x, e, hx, -, rfl⟩ := ended?_eq_some hended
      rw [← h.listed, Registering.names, List.getElem?_map, hx, ← hname]
      rfl
  refine ⟨(names_turn st i).trans h.listed, hsame.trans h.registered, ?_, h.configured', fun j hj => ?_⟩
  · rw [(emits_turn st i).config]
    exact h.configured
  · rw [attempts_turn_of_ne fun hne : j = i => hi (hne ▸ hj)]
    exact h.attempts j hj

/-- A turn of an attempt for the name is mirrored, with the same ending. -/
theorem turn_own (hi : names[i]? = some name) :
    Mirrors names name config (st.turn i) (st'.turn (rank names name i)) ∧
      (st.ended? i).map Ended.ending = (st'.ended? (rank names name i)).map Ended.ending := by
  obtain ⟨x, y, hx, hy, halike⟩ := h.attempts i hi
  have hending := halike.ending? h.registered h.configured h.configured'
  have hname : x.name = name := by cases halike <;> rfl
  have hname' : y.name = name := by cases halike <;> rfl
  refine ⟨⟨(names_turn st i).trans h.listed, ?_, ?_, ?_, fun j hj => ?_⟩, ?_⟩
  · cases he : x.ending? st.analyzer with
    | none =>
      rw [turn_of_waiting hx he, turn_of_waiting hy (hending ▸ he)]
      exact h.registered
    | some e =>
      rw [turn_of_ending hx he, turn_of_ending hy (hending ▸ he), hname, hname']
      exact isRegistered_effect_congr h.registered
  · rw [(emits_turn st i).config]
    exact h.configured
  · rw [(emits_turn st' _).config]
    exact h.configured'
  · by_cases hne : j = i
    · subst hne
      exact ⟨_, _, attempts_turn hx, attempts_turn hy,
        halike.after h.registered h.configured h.configured'⟩
    · rw [attempts_turn_of_ne hne, attempts_turn_of_ne fun hranks => hne (rank_injective hj hi hranks)]
      exact h.attempts j hj
  · simp only [ended?, hx, hy, Option.bind_some, Option.map_map, hending]
    rfl

/-- The attempts for the name end as those of `st'` when these have the corresponding turns. -/
theorem endings_own (is : List Nat) :
    ((st.endings is).filter fun d => d.name = name).map Ended.ending =
      (st'.endings (own names name is)).map Ended.ending := by
  induction is generalizing st st' with
  | nil => rfl
  | cons i rest ih =>
    have hd : ∀ d, st.ended? i = some d → (d.name = name ↔ names[i]? = some name) := by
      intro d hended
      obtain ⟨x, e, hx, -, rfl⟩ := ended?_eq_some hended
      rw [← h.listed, Registering.names, List.getElem?_map, hx]
      simp
    rw [endings, List.filter_append, List.map_append]
    by_cases hi : names[i]? = some name
    · obtain ⟨hturn, hended⟩ := h.turn_own hi
      have hown : own names name (i :: rest) = rank names name i :: own names name rest := by
        rw [own, List.filter_cons_of_pos (by simp [hi])]
        rfl
      rw [hown, endings, List.map_append, ih hturn]
      congr 1
      cases hsome : st.ended? i with
      | none =>
        rw [hsome, eq_comm, Option.map_none, Option.map_eq_none_iff] at hended
        rw [hended]
        rfl
      | some d =>
        rw [hsome, eq_comm, Option.map_some, Option.map_eq_some_iff] at hended
        obtain ⟨d', hd', hsame⟩ := hended
        rw [hd', Option.toList_some, List.filter_cons_of_pos (by simp [(hd d hsome).mpr hi])]
        simp [hsame]
    · have hown : own names name (i :: rest) = own names name rest := by
        rw [own, List.filter_cons_of_neg (by simp [hi])]
        rfl
      rw [hown, ih (h.turn_other hi)]
      cases hsome : st.ended? i with
      | none => rfl
      | some d =>
        rw [Option.toList_some, List.filter_cons_of_neg (by simp [(hd d hsome).not.mpr hi])]
        rfl

end Mirrors

end Registering

end Polyscan
