import Polyscan.Proofs.Sharing.Stage

/-!
Many callers of one shared value. They arrive at any time and have their turns in any order, and between two
turns the rest of the state changes arbitrarily. The invariant is one of counting: at most one caller holds
the lock, and at most one has made the value that all callers get.
-/
namespace Polyscan

open Once

variable {σ ν : Type}

/-- The rest of the work of a caller, and its stage. -/
structure Caller (σ ν : Type) where
  work : Work σ ν
  stage : Stage σ ν := .fresh

/-- A caller after its turn in a state. -/
def Caller.turn (spot : Spot σ ν) (make : Work σ ν) (c : Caller σ ν) (s : σ) : Caller σ ν where
  work := (c.work.turn s).1
  stage := (c.stage.turn spot make s).1

/-- A state with the callers of a shared value in it, in the order of their arrival. -/
structure Sharing (σ ν : Type) where
  state : σ
  callers : List (Caller σ ν) := []

namespace Sharing

/-- A step: a caller arrives or has a turn, or the rest of the state changes. -/
inductive Occurrence (σ : Type) where
  | arrive
  | turn (caller : Nat)
  /-- The state becomes an arbitrary one with the same shared value. -/
  | others (s : σ)

section

variable (spot : Spot σ ν) (make : Work σ ν)

/-- A new caller. -/
def arrive (st : Sharing σ ν) : Sharing σ ν :=
  { st with callers := st.callers ++ [{ work := obtain spot make }] }

/-- Gives a caller its turn. -/
def turn (st : Sharing σ ν) (i : Nat) : Sharing σ ν :=
  match st.callers[i]? with
  | none => st
  | some c =>
    { state := (c.work.turn st.state).2
      callers := st.callers.set i (c.turn spot make st.state) }

def step (st : Sharing σ ν) : Occurrence σ → Sharing σ ν
  | .arrive => st.arrive spot make
  | .turn i => st.turn spot make i
  | .others s => { st with state := spot.store (spot.look st.state) s }

def play (st : Sharing σ ν) (moves : List (Occurrence σ)) : Sharing σ ν := moves.foldl (step spot make) st

/-- The number of callers that have begun to make the value. -/
def begun (st : Sharing σ ν) : Nat := st.callers.countP fun c => c.stage.since?.isSome

/-- The invariant: every caller has the rest of the work of its stage and is sound, the lock is held by as
many callers as make the value, and the value is there if and only if one caller has made it. -/
structure Orderly (P : σ → σ → Except Fault ν → Prop) (st : Sharing σ ν) : Prop where
  work : ∀ c ∈ st.callers, c.work = c.stage.work spot make
  sound : ∀ c ∈ st.callers, c.stage.Sound spot P (spot.look st.state).value
  holders : (st.callers.countP fun c => c.stage.makes) = (spot.look st.state).locked.toNat
  makers : (st.callers.countP fun c => c.stage.succeeded) = (spot.look st.state).value.isSome.toNat
  vacant : (spot.look st.state).locked = true → (spot.look st.state).value = none

end

variable {spot : Spot σ ν} {make : Work σ ν} {P : σ → σ → Except Fault ν → Prop} {st : Sharing σ ν}
variable {c : Caller σ ν} {i : Nat} {v : ν} {r : Except Fault ν}

theorem play_append (st : Sharing σ ν) (moves more : List (Occurrence σ)) :
    st.play spot make (moves ++ more) = (st.play spot make moves).play spot make more :=
  List.foldl_append

/-! ## Single callers -/

theorem turn_of_some (hi : st.callers[i]? = some c) : st.turn spot make i =
    { state := (c.work.turn st.state).2, callers := st.callers.set i (c.turn spot make st.state) } := by
  rw [turn, hi]

theorem caller_turn (hi : st.callers[i]? = some c) :
    (st.turn spot make i).callers[i]? = some (c.turn spot make st.state) := by
  rw [turn_of_some hi, List.getElem?_set_self (List.getElem?_eq_some_iff.mp hi).1]

/-- A property of a caller that its turns keep is kept by every step. -/
theorem caller_step {Q : Caller σ ν → Prop} (hlasts : ∀ c s, Q c → Q (c.turn spot make s))
    (hi : st.callers[i]? = some c) (hc : Q c) (m : Occurrence σ) :
    ∃ d, (st.step spot make m).callers[i]? = some d ∧ Q d := by
  cases m with
  | arrive =>
    refine ⟨c, ?_, hc⟩
    rw [step, arrive, List.getElem?_append_left (List.getElem?_eq_some_iff.mp hi).1, hi]
  | others s => exact ⟨c, hi, hc⟩
  | turn j =>
    by_cases hj : j = i
    · subst hj
      exact ⟨_, caller_turn hi, hlasts c _ hc⟩
    · refine ⟨c, ?_, hc⟩
      rw [step, turn]
      cases st.callers[j]? with
      | none => exact hi
      | some d => exact (List.getElem?_set_ne hj).trans hi

theorem caller_play {Q : Caller σ ν → Prop} (hlasts : ∀ c s, Q c → Q (c.turn spot make s))
    (hi : st.callers[i]? = some c) (hc : Q c) (moves : List (Occurrence σ)) :
    ∃ d, (st.play spot make moves).callers[i]? = some d ∧ Q d := by
  induction moves generalizing st c with
  | nil => exact ⟨c, hi, hc⟩
  | cons m rest ih =>
    obtain ⟨d, hd, hQ⟩ := caller_step hlasts hi hc m
    exact ih hd hQ

/-- Steps in which every present caller has a turn. -/
def Round (st : Sharing σ ν) (moves : List (Occurrence σ)) : Prop := ∀ i < st.callers.length, .turn i ∈ moves

/-- The turn of a caller in a round. -/
theorem Round.split {moves : List (Occurrence σ)} (h : st.Round moves) (hi : st.callers[i]? = some c) :
    ∃ before after, moves = before ++ .turn i :: after :=
  List.append_of_mem (h i (List.getElem?_eq_some_iff.mp hi).1)

/-! ## The order -/

/-- Without callers, and with a missing value, the invariant holds. -/
theorem orderly_start {s : σ} (hnew : spot.look s = {}) :
    ({ state := s } : Sharing σ ν).Orderly spot make P where
  work := fun _ hc => absurd hc List.not_mem_nil
  sound := fun _ hc => absurd hc List.not_mem_nil
  holders := by rw [hnew]; rfl
  makers := by rw [hnew]; rfl
  vacant := by rw [hnew]; exact fun _ => rfl

/-- A count after one entry of a list has changed. -/
theorem countP_set_toNat {α : Type} {l : List α} {a b : α} (p : α → Bool) (h : l[i]? = some a) :
    (l.set i b).countP p + (p a).toNat = l.countP p + (p b).toNat := by
  obtain ⟨hlt, rfl⟩ := List.getElem?_eq_some_iff.mp h
  have hpos : p l[i] = true → 0 < l.countP p := fun hp =>
    List.countP_pos_iff.mpr ⟨_, List.getElem_mem hlt, hp⟩
  rw [List.countP_set hlt]
  cases hb : p b <;> cases ha : p l[i] <;> simp_all

/-- The count of a disjoint union. -/
theorem countP_eq_add {α : Type} {l : List α} {p q r : α → Bool}
    (h : ∀ x ∈ l, (p x).toNat = (q x).toNat + (r x).toNat) : l.countP p = l.countP q + l.countP r := by
  induction l with
  | nil => rfl
  | cons x rest ih =>
    obtain ⟨hx, hrest⟩ := List.forall_mem_cons.mp h
    have hone : ∀ p : α → Bool, (x :: rest).countP p = rest.countP p + (p x).toNat := by
      intro p
      rw [List.countP_cons]
      cases p x <;> rfl
    rw [hone, hone, hone, ih hrest, hx]
    omega

namespace Orderly

/-- The caller that makes the value holds the lock. -/
theorem locked (h : st.Orderly spot make P) (hc : c ∈ st.callers) (hmakes : c.stage.makes = true) :
    (spot.look st.state).locked = true := by
  have hpos : 0 < st.callers.countP fun c => c.stage.makes := List.countP_pos_iff.mpr ⟨c, hc, hmakes⟩
  rw [h.holders] at hpos
  cases hlocked : (spot.look st.state).locked with
  | true => rfl
  | false =>
    rw [hlocked] at hpos
    exact absurd hpos (Nat.lt_irrefl 0)

/-! ## Steps -/

section

variable (h : st.Orderly spot make P)

include h

theorem arrive : (st.arrive spot make).Orderly spot make P where
  work := List.forall_mem_append.mpr ⟨h.work, by simp [Stage.work]⟩
  sound := List.forall_mem_append.mpr ⟨h.sound, by simpa using .fresh⟩
  holders := by
    rw [Sharing.arrive, List.countP_append, h.holders]
    rfl
  makers := by
    rw [Sharing.arrive, List.countP_append, h.makers]
    rfl
  vacant := h.vacant

variable (hlaw : spot.Lawful)

include hlaw

theorem others (s : σ) : (st.step spot make (.others s)).Orderly spot make P := by
  have hsame : spot.look (st.step spot make (.others s)).state = spot.look st.state := hlaw.look_store _ _
  exact ⟨h.work, hsame ▸ h.sound, hsame ▸ h.holders, hsame ▸ h.makers, hsame ▸ h.vacant⟩

variable (hmake : ∀ s, (make.Ends (P s)) (spot.lock s)) (hapart : spot.apart.Abides make)

include hmake hapart

/-- A turn of a caller, as `Moves` describes it. -/
theorem moves (hc : c ∈ st.callers) :
    Stage.Moves spot P c.stage (c.stage.turn spot make st.state).1 (spot.look st.state)
      (spot.look (c.work.turn st.state).2) := by
  rw [h.work c hc, Stage.turn_work]
  exact Stage.moves_turn hlaw hmake hapart (h.sound c hc) (h.locked hc) h.vacant

theorem turn (i : Nat) : (st.turn spot make i).Orderly spot make P := by
  rw [Sharing.turn]
  cases hi : st.callers[i]? with
  | none => exact h
  | some c =>
    have hc : c ∈ st.callers := List.mem_of_getElem? hi
    have hmoves := h.moves hlaw hmake hapart hc
    refine ⟨?_, ?_, ?_, ?_, hmoves.vacant⟩
    · intro d hd
      rcases List.mem_or_eq_of_mem_set hd with hd | rfl
      · exact h.work d hd
      · rw [Caller.turn, h.work c hc, Stage.turn_work]
    · intro d hd
      rcases List.mem_or_eq_of_mem_set hd with hd | rfl
      · exact (h.sound d hd).mono hmoves.stays
      · exact hmoves.sound
    · have hcount := countP_set_toNat (b := c.turn spot make st.state) (fun c => c.stage.makes) hi
      have hone := hmoves.makes
      have hholders := h.holders
      simp only [Caller.turn] at hcount ⊢
      omega
    · have hcount := countP_set_toNat (b := c.turn spot make st.state) (fun c => c.stage.succeeded) hi
      have hone := hmoves.succeeded
      have hmakers := h.makers
      simp only [Caller.turn] at hcount ⊢
      omega

theorem step (m : Occurrence σ) : (st.step spot make m).Orderly spot make P := by
  cases m with
  | arrive => exact h.arrive
  | turn i => exact h.turn hlaw hmake hapart i
  | others s => exact h.others hlaw s

theorem play (moves : List (Occurrence σ)) : (st.play spot make moves).Orderly spot make P := by
  induction moves generalizing st with
  | nil => exact h
  | cons m rest ih => exact ih (h.step hlaw hmake hapart m)

/-- A stored value stays. -/
theorem value_step (hv : (spot.look st.state).value = some v) (m : Occurrence σ) :
    (spot.look (st.step spot make m).state).value = some v := by
  cases m with
  | arrive => exact hv
  | others s =>
    rw [Sharing.step, hlaw.look_store]
    exact hv
  | turn i =>
    cases hi : st.callers[i]? with
    | none =>
      rw [Sharing.step, Sharing.turn, hi]
      exact hv
    | some c =>
      rw [Sharing.step, turn_of_some hi]
      exact (h.moves hlaw hmake hapart (List.mem_of_getElem? hi)).stays v hv

theorem value_play (hv : (spot.look st.state).value = some v) (moves : List (Occurrence σ)) :
    (spot.look (st.play spot make moves).state).value = some v := by
  induction moves generalizing st with
  | nil => exact hv
  | cons m rest ih =>
    exact ih (h.step hlaw hmake hapart m) (h.value_step hlaw hmake hapart hv m)

end

/-! ## Results of callers -/

/-- A finished caller has the shared value, or failed to make it. -/
theorem result (h : st.Orderly spot make P) (hc : c ∈ st.callers) (hr : c.work.result? = some r) :
    (∃ v, r = .ok v ∧ (spot.look st.state).value = some v) ∨
      ∃ f since last, r = .error f ∧ c.stage = .made since last (.error f) ∧ P since last (.error f) := by
  have hsound := h.sound c hc
  rw [h.work c hc] at hr
  generalize c.stage = stage at hsound hr ⊢
  cases hsound with
  | fresh => cases hr
  | queued => cases hr
  | @making since rest =>
    cases rest with
    | done r => cases r <;> cases hr
    | _ => cases hr
  | @failed since last f hfailed =>
    cases hr
    exact .inr ⟨f, since, last, rfl, rfl, hfailed⟩
  | @made _ _ v hvalue _ =>
    cases hr
    exact .inl ⟨v, rfl, hvalue⟩
  | @found v hvalue =>
    cases hr
    exact .inl ⟨v, rfl, hvalue⟩

/-- A caller that fails in its turn leaves the value missing and the lock free. -/
theorem cleared {f : Fault} (h : st.Orderly spot make P) (hlaw : spot.Lawful)
    (hmake : ∀ s, (make.Ends (P s)) (spot.lock s)) (hapart : spot.apart.Abides make)
    (hi : st.callers[i]? = some c) (hwaits : c.work.result? = none)
    (hfails : (c.turn spot make st.state).work.result? = some (.error f)) :
    spot.look (st.turn spot make i).state = {} := by
  have hc := List.mem_of_getElem? hi
  have hbefore : c.stage.failed = false := by
    rw [h.work c hc] at hwaits
    generalize c.stage = stage at hwaits ⊢
    cases stage with
    | made => cases hwaits
    | _ => rfl
  have hafter : (c.turn spot make st.state).stage.failed = true := by
    have hd : c.turn spot make st.state ∈ (st.turn spot make i).callers :=
      List.mem_of_getElem? (caller_turn hi)
    rcases (h.turn hlaw hmake hapart i).result hd hfails with ⟨v, hv, -⟩ | ⟨f', since, last, -, hmade, -⟩
    · cases hv
    · rw [hmade]
      rfl
  rw [turn_of_some hi]
  exact (h.moves hlaw hmake hapart hc).failed hafter hbefore

/-- The shared value was made by one caller. -/
theorem maker (h : st.Orderly spot make P) (hv : (spot.look st.state).value = some v) :
    ∃ c ∈ st.callers, ∃ since last, c.stage = .made since last (.ok v) ∧ P since last (.ok v) := by
  have hpos : 0 < st.callers.countP fun c => c.stage.succeeded := by
    rw [h.makers, hv]
    exact Nat.one_pos
  obtain ⟨c, hc, hsucceeded⟩ := List.countP_pos_iff.mp hpos
  have hsound := h.sound c hc
  refine ⟨c, hc, ?_⟩
  generalize c.stage = stage at hsound hsucceeded ⊢
  cases hsound with
  | @made since last u hvalue hmade =>
    cases hv.symm.trans hvalue
    exact ⟨since, last, rfl, hmade⟩
  | _ => cases hsucceeded

/-- If making the value cannot fail, at most one caller begins to make it. -/
theorem begun_le_one (h : st.Orderly spot make P) (hnever : ∀ since last f, ¬ P since last (.error f)) :
    st.begun ≤ 1 := by
  have hbegun : st.begun = (spot.look st.state).locked.toNat + (spot.look st.state).value.isSome.toNat := by
    rw [← h.holders, ← h.makers]
    refine countP_eq_add fun c hc => ?_
    have hsound := h.sound c hc
    generalize c.stage = stage at hsound ⊢
    cases hsound with
    | failed hfailed => exact absurd hfailed (hnever _ _ _)
    | _ => rfl
  rw [hbegun]
  cases hlocked : (spot.look st.state).locked with
  | true =>
    rw [h.vacant hlocked]
    exact Nat.le_refl 1
  | false =>
    rw [Bool.toNat_false, Nat.zero_add]
    exact Bool.toNat_le _

/-- If no caller has begun to make the value, it is missing and the lock is free. -/
theorem unbegun (h : st.Orderly spot make P) (hfresh : ∀ c ∈ st.callers, c.stage.since? = none) :
    spot.look st.state = {} := by
  have hnone : (spot.look st.state).value = none := by
    refine Option.eq_none_iff_forall_ne_some.mpr fun v hv => ?_
    obtain ⟨c, hc, since, last, hmade, -⟩ := h.maker hv
    have hnot := hfresh c hc
    rw [hmade] at hnot
    cases hnot
  have hfree : (spot.look st.state).locked = false := by
    refine Bool.eq_false_iff.mpr fun hlocked => ?_
    have hpos : 0 < st.callers.countP fun c => c.stage.makes := by
      rw [h.holders, hlocked]
      exact Nat.one_pos
    obtain ⟨c, hc, hmakes⟩ := List.countP_pos_iff.mp hpos
    have hnot := hfresh c hc
    generalize c.stage = stage at hmakes hnot
    cases stage with
    | making => cases hnot
    | _ => cases hmakes
  rw [← hnone, ← hfree]

/-- If the value is missing and the lock is free, a waiting caller begins to make it in its turn. -/
theorem begins (h : st.Orderly spot make P) (hlaw : spot.Lawful) (hc : c ∈ st.callers)
    (hwaits : c.work.result? = none) (hnew : spot.look st.state = {}) :
    (c.turn spot make st.state).stage.since? = some st.state := by
  refine Stage.since?_turn hlaw ?_ hnew
  have hlocked := h.locked hc
  rw [h.work c hc] at hwaits
  generalize c.stage = stage at hwaits hlocked ⊢
  cases stage with
  | fresh => exact .inl rfl
  | queued => exact .inr rfl
  | making since rest =>
    have htaken := hlocked rfl
    rw [hnew] at htaken
    cases htaken
  | made since last r => cases hwaits
  | found v => cases hwaits

/-- If the value is there, a caller has it after its turn, unless it failed before. -/
theorem given (h : st.Orderly spot make P) (hlaw : spot.Lawful) (hc : c ∈ st.callers)
    (hv : (spot.look st.state).value = some v) :
    (c.turn spot make st.state).work = .done (.ok v) ∨ ∃ f, c.work = .done (.error f) := by
  have hfree : (spot.look st.state).locked = false := by
    cases hlocked : (spot.look st.state).locked with
    | false => rfl
    | true => cases hv.symm.trans (h.vacant hlocked)
  have hsound := h.sound c hc
  have hlocked := h.locked hc
  rw [Caller.turn, h.work c hc, Stage.turn_work]
  generalize c.stage = stage at hsound hlocked ⊢
  cases hsound with
  | fresh =>
    rw [Stage.turn, hv]
    exact .inl rfl
  | queued =>
    have hmissing : (spot.look (spot.lock st.state)).value = some v := by rw [Stage.look_lock hlaw, hv]
    rw [Stage.turn, Stage.enterIfFree, if_pos (by simp [Spot.isFree, hfree]), Stage.enter, hmissing]
    exact .inl rfl
  | making => exact absurd (hlocked rfl) (by rw [hfree]; exact Bool.false_ne_true)
  | @failed _ _ f _ => exact .inr ⟨f, rfl⟩
  | made hvalue =>
    cases hv.symm.trans hvalue
    exact .inl rfl
  | found hvalue =>
    cases hv.symm.trans hvalue
    exact .inl rfl

end Orderly

end Sharing

end Polyscan
