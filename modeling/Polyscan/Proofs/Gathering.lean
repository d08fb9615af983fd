import Mathlib.Data.List.Basic
import Mathlib.Data.List.Forall2
import Polyscan.Proofs.OrderedMap
import Polyscan.Proofs.Turns

/-!
Pieces of work that are started together. Each of them waits for some rounds and then has its result. They
finish in the order in which they stop waiting. Events describe the effect of each of them, and a `Chronicle`
relates states and events. The result of a piece depends on the other ones only through the events before its
last turn.
-/
namespace Polyscan.Work

variable {σ α β ε ι : Type}

/-! ## Work that ends after some rounds -/

/-- The states that are related by a list of events. -/
structure Chronicle (σ ε : Type) where
  relates : List ε → σ → σ → Prop
  refl : ∀ s, relates [] s s
  trans : ∀ {es fs s t u}, relates es s t → relates fs t u → relates (es ++ fs) s u

/-- The work ends in the turn after `n` others. Its result and the events of its last turn depend on the
events since the state `s₀`; its other turns have no events. -/
inductive EndsAfter (c : Chronicle σ ε) (s₀ : σ) (r : List ε → Except Fault α) (es : List ε → List ε) :
    Nat → Work σ α → Prop
  | now {w : Work σ α}
      (h : ∀ xs s, c.relates xs s₀ s → ∃ t, w.turn s = (.done (r xs), t) ∧ c.relates (es xs) s t) :
      EndsAfter c s₀ r es 0 w
  | later {n : Nat} {w w' : Work σ α}
      (hturn : ∀ xs s, c.relates xs s₀ s → ∃ t, w.turn s = (w', t) ∧ c.relates [] s t)
      (hruns : w'.result? = none) (h : EndsAfter c s₀ r es n w') : EndsAfter c s₀ r es (n + 1) w

variable {c : Chronicle σ ε} {s₀ s t : σ} {xs : List ε}

/-- A turn without events. -/
theorem Chronicle.trans_nil (hs : c.relates xs s₀ s) (ht : c.relates [] s t) : c.relates xs s₀ t := by
  simpa using c.trans hs ht

section

variable {r : List ε → Except Fault α} {es : List ε → List ε} {n : Nat} {w next : Work σ α}

theorem EndsAfter.drive (h : EndsAfter c s₀ r es n w) (hs : c.relates xs s₀ s) :
    ∃ t, w.drive s = (r xs, t) ∧ c.relates (es xs) s t := by
  induction h generalizing xs s with
  | now h =>
    obtain ⟨t, hturn, ht⟩ := h xs s hs
    refine ⟨t, ?_, ht⟩
    rw [← drive_turn, hturn]
    rfl
  | later hturn _ _ ih =>
    obtain ⟨t, hturn, ht⟩ := hturn xs s hs
    obtain ⟨u, hdrive, hu⟩ := ih (c.trans_nil hs ht)
    refine ⟨u, ?_, c.trans ht hu⟩
    rw [← drive_turn, hturn]
    exact hdrive

/-- The last step `next` of work, after one wait more than the pause has. -/
theorem EndsAfter.waiting
    (hnext : ∀ xs s, c.relates xs s₀ s → ∃ t, next.resume s = (.done (r xs), t) ∧ c.relates (es xs) s t)
    (n : Nat) :
    EndsAfter c s₀ r es n (.wait (fun _ => true) ((Work.pause n).bind fun _ => next)) := by
  induction n with
  | zero => exact .now hnext
  | succ n ih => exact .later (fun _ s _ => ⟨s, rfl, c.refl s⟩) rfl ih

/-- Work that begins without events, pauses, and then takes its last step. -/
theorem EndsAfter.of_pause
    (hbegin : ∀ xs s, c.relates xs s₀ s →
      ∃ t, w.turn s = ((Work.pause n).bind fun _ => next).resume t ∧ c.relates [] s t)
    (hnext : ∀ xs s, c.relates xs s₀ s → ∃ t, next.resume s = (.done (r xs), t) ∧ c.relates (es xs) s t) :
    EndsAfter c s₀ r es n w := by
  cases n with
  | zero =>
    refine .now fun xs s hs => ?_
    obtain ⟨t, hturn, ht⟩ := hbegin xs s hs
    obtain ⟨u, hresume, hu⟩ := hnext xs t (c.trans_nil hs ht)
    exact ⟨u, hturn.trans hresume, c.trans ht hu⟩
  | succ n =>
    refine .later (fun xs s hs => ?_) rfl (.waiting hnext n)
    obtain ⟨t, hturn, ht⟩ := hbegin xs s hs
    exact ⟨t, hturn, ht⟩

end

/-! ## Occasions -/

/-- Items in their order of processing, each with the events before it, where `es` gives the events of an
item. -/
def occasions (es : ι → List ε → List ε) : List ε → List ι → List (ι × List ε)
  | _, [] => []
  | xs, x :: rest => (x, xs) :: occasions es (xs ++ es x xs) rest

/-- The events of items on their occasions. -/
def eventsOn (es : ι → List ε → List ε) (l : List (ι × List ε)) : List ε := l.flatMap fun o => es o.1 o.2

theorem map_fst_occasions (es : ι → List ε → List ε) (xs : List ε) (l : List ι) :
    (occasions es xs l).map Prod.fst = l := by
  induction l generalizing xs with
  | nil => rfl
  | cons x rest ih => rw [occasions, List.map_cons, ih]

theorem occasions_append (es : ι → List ε → List ε) (xs : List ε) (l l' : List ι) :
    occasions es xs (l ++ l') =
      occasions es xs l ++ occasions es (xs ++ eventsOn es (occasions es xs l)) l' := by
  induction l generalizing xs with
  | nil => simp [occasions, eventsOn]
  | cons x rest ih =>
    rw [List.cons_append, occasions, ih, occasions]
    simp [eventsOn]

/-- Positions of items do not affect their occasions. -/
theorem map_occasions_snd (es : ι → List ε → List ε) (xs : List ε) (ys : List (Nat × ι)) :
    (occasions (fun y => es y.2) xs ys).map (fun o => (o.1.2, o.2)) = occasions es xs (ys.map Prod.snd) := by
  induction ys generalizing xs with
  | nil => rfl
  | cons y rest ih => rw [occasions, List.map_cons, ih, List.map_cons, occasions]

/-! ## One round -/

/-- Pieces of work at positions belong to items, each with a result, events and a delay. -/
def Belong (c : Chronicle σ ε) (s₀ : σ) (r : ι → List ε → Except Fault α) (es : ι → List ε → List ε)
    (delay : ι → Nat) (todo : List (Nat × Work σ α)) (ys : List (Nat × ι)) : Prop :=
  List.Forall₂ (fun p y => p.1 = y.1 ∧ EndsAfter c s₀ (r y.2) (es y.2) (delay y.2) p.2) todo ys

/-- The results of items at positions on occasions. -/
def resultsOn (r : ι → List ε → Except Fault α) (l : List ((Nat × ι) × List ε)) :
    List (Nat × Except Fault α) :=
  l.map fun o => (o.1.1, r o.1.2 o.2)

variable {r : ι → List ε → Except Fault α} {es : ι → List ε → List ε} {delay : ι → Nat}
  {todo : List (Nat × Work σ α)} {ys : List (Nat × ι)}

/-- In one round the pieces without delay finish, and the others have waited once more. -/
theorem takeTurns_relates (g : Gathering σ α) (h : Belong c s₀ r es delay todo ys)
    (hs : c.relates xs s₀ s) :
    ∃ running t,
      takeTurns g s todo =
        (⟨g.running ++ running,
          g.finished ++ resultsOn r
            (occasions (fun y => es y.2) xs (ys.filter fun y => delay y.2 = 0))⟩, t) ∧
      c.relates (eventsOn (fun y => es y.2)
        (occasions (fun y => es y.2) xs (ys.filter fun y => delay y.2 = 0))) s t ∧
      Belong c s₀ r es (fun x => delay x - 1) running (ys.filter fun y => ¬ delay y.2 = 0) := by
  -- along the round `xs` grows by the events in it, so each turn is taken in a state after `xs`
  induction h generalizing g s xs with
  | nil => exact ⟨[], s, by simp [takeTurns, occasions, resultsOn], c.refl s, .nil⟩
  | @cons p y todo ys hp _ ih =>
    obtain ⟨k, w⟩ := p
    obtain ⟨k', x⟩ := y
    obtain ⟨hk, hw⟩ := hp
    simp only at hk hw
    subst hk
    rw [takeTurns_cons]
    generalize hdelay : delay x = n at hw
    cases hw with
    | now hnow =>
      obtain ⟨t, hturn, ht⟩ := hnow xs s hs
      rw [takeTurn_of_done (r := r x xs) (by rw [hturn]; rfl), hturn]
      obtain ⟨running, u, htake, hu, hbelong⟩ :=
        ih { g with finished := g.finished ++ [(k, r x xs)] } (c.trans hs ht)
      have hready : ((k, x) :: ys).filter (fun y => delay y.2 = 0) =
          (k, x) :: ys.filter fun y => delay y.2 = 0 := by
        simp [hdelay]
      refine ⟨running, u, ?_, ?_, ?_⟩
      · rw [htake, hready]
        simp [occasions, resultsOn]
      · rw [hready]
        simpa [occasions, eventsOn] using c.trans ht hu
      · simpa [hdelay] using hbelong
    | @later m _ w' hlater hruns hends =>
      obtain ⟨t, hturn, ht⟩ := hlater xs s hs
      rw [takeTurn_of_running (by rw [hturn]; exact hruns), hturn]
      obtain ⟨running, u, htake, hu, hbelong⟩ :=
        ih { g with running := g.running ++ [(k, w')] } (c.trans_nil hs ht)
      have hready : ((k, x) :: ys).filter (fun y => delay y.2 = 0) =
          ys.filter fun y => delay y.2 = 0 := by
        simp [hdelay]
      refine ⟨(k, w') :: running, u, ?_, ?_, ?_⟩
      · rw [htake, hready]
        simp
      · rw [hready]
        exact c.trans ht hu
      · have hhead : delay x - 1 = m := by omega
        have hkeep : ((k, x) :: ys).filter (fun y => ¬ delay y.2 = 0) =
            (k, x) :: ys.filter fun y => ¬ delay y.2 = 0 := by
          simp [hdelay]
        rw [hkeep]
        refine .cons ⟨rfl, ?_⟩ hbelong
        show EndsAfter c s₀ (r x) (es x) (delay x - 1) w'
        rw [hhead]
        exact hends

/-! ## All rounds -/

/-- The order in which items finish: in each round those without remaining delay. What is left after the last
round is finished one by one. -/
def doneOrder : Nat → (ι → Nat) → List ι → List ι
  | 0, _, items => items
  | limit + 1, delay, items =>
    (items.filter fun x => delay x = 0) ++
      doneOrder limit (fun x => delay x - 1) (items.filter fun x => ¬ delay x = 0)

theorem doneOrder_perm (limit : Nat) (delay : ι → Nat) (items : List ι) :
    (doneOrder limit delay items).Perm items := by
  induction limit generalizing delay items with
  | zero => exact .refl items
  | succ limit ih =>
    have hrest := ih (fun x => delay x - 1) (items.filter fun x => ¬ delay x = 0)
    refine (hrest.append_left _).trans ?_
    simpa using List.filter_append_perm (fun x => decide (delay x = 0)) items

theorem doneOrder_nil (limit : Nat) (delay : ι → Nat) : doneOrder limit delay [] = [] :=
  (doneOrder_perm limit delay []).eq_nil

/-- Positions of items do not affect the order. -/
theorem map_snd_doneOrder (limit : Nat) (delay : ι → Nat) (ys : List (Nat × ι)) :
    (doneOrder limit (fun y => delay y.2) ys).map Prod.snd = doneOrder limit delay (ys.map Prod.snd) := by
  induction limit generalizing delay ys with
  | zero => rfl
  | succ limit ih =>
    have hrest := ih (fun x => delay x - 1) (ys.filter fun y => ¬ delay y.2 = 0)
    rw [doneOrder, doneOrder, List.map_append, hrest, List.filter_map, List.filter_map]
    rfl

/-- Pieces of work that are finished one by one. -/
theorem inTurn_drive (finished : List (Nat × Except Fault α)) (h : Belong c s₀ r es delay todo ys)
    (hs : c.relates xs s₀ s) :
    ∃ t, (Gathering.inTurn finished todo).drive s =
        (.ok (finished ++ resultsOn r (occasions (fun y => es y.2) xs ys)), t) ∧
      c.relates (eventsOn (fun y => es y.2) (occasions (fun y => es y.2) xs ys)) s t := by
  induction h generalizing finished s xs with
  | nil => exact ⟨s, by simp [Gathering.inTurn, occasions, resultsOn], c.refl s⟩
  | @cons p y todo ys hp _ ih =>
    obtain ⟨k, w⟩ := p
    obtain ⟨hk, hw⟩ := hp
    obtain ⟨t, hdrive, ht⟩ := hw.drive hs
    obtain ⟨u, hrest, hu⟩ := ih (finished ++ [(k, r y.2 xs)]) (c.trans hs ht)
    refine ⟨u, ?_, ?_⟩
    · show (w.attempt.bind fun r => Gathering.inTurn (finished ++ [(k, r)]) todo).drive s = _
      rw [drive_bind, drive_attempt, hdrive]
      show (Gathering.inTurn (finished ++ [(k, r y.2 xs)]) todo).drive t = _
      rw [hrest, show k = y.1 from hk]
      simp [occasions, resultsOn]
    · rw [occasions, eventsOn, List.flatMap_cons]
      exact c.trans ht hu

theorem rounds_drive (limit : Nat) (finished : List (Nat × Except Fault α))
    (h : Belong c s₀ r es delay todo ys) (hs : c.relates xs s₀ s) :
    ∃ t, (Gathering.rounds limit todo finished).drive s =
        (.ok (finished ++ resultsOn r (occasions (fun y => es y.2) xs
          (doneOrder limit (fun y => delay y.2) ys))), t) ∧
      c.relates (eventsOn (fun y => es y.2)
        (occasions (fun y => es y.2) xs (doneOrder limit (fun y => delay y.2) ys))) s t := by
  induction limit generalizing delay todo ys finished s xs with
  | zero => exact inTurn_drive finished h hs
  | succ limit ih =>
    obtain ⟨running, t, htake, ht, hbelong⟩ := takeTurns_relates ⟨[], finished⟩ h hs
    rw [drive_rounds_succ, htake]
    simp only [List.nil_append, doneOrder]
    cases running with
    | nil =>
      -- no item waits any more, so none is left after the last round
      have hnone : (ys.filter fun y => ¬ delay y.2 = 0) = [] := List.forall₂_nil_left_iff.mp hbelong
      rw [hnone, doneOrder_nil, List.append_nil]
      exact ⟨t, by simp, ht⟩
    | cons p running =>
      obtain ⟨u, hdrive, hu⟩ := ih _ hbelong (c.trans hs ht)
      refine ⟨u, ?_, ?_⟩
      · rw [List.isEmpty_cons, if_neg (by simp), hdrive, occasions_append, resultsOn, resultsOn, resultsOn,
          List.map_append, List.append_assoc]
      · rw [occasions_append, eventsOn, List.flatMap_append]
        exact c.trans ht hu

/-! ## Results -/

/-- The failure in a result, if it is one. -/
def faultOf : Except Fault α → Option Fault
  | .ok _ => none
  | .error f => some f

theorem faultOf_eq_some_iff {r : Except Fault α} {f : Fault} : faultOf r = some f ↔ r = .error f := by
  cases r <;> simp [faultOf]

theorem faultOf_eq_none_iff {r : Except Fault α} : faultOf r = none ↔ ∃ x, r = .ok x := by
  cases r <;> simp [faultOf]

theorem failure?_eq (results : List (Nat × Except Fault α)) :
    Gathering.failure? results = results.findSome? fun x => faultOf x.2 := by
  induction results with
  | nil => rfl
  | cons x rest ih =>
    obtain ⟨k, f | v⟩ := x
    · rfl
    · show Gathering.failure? rest = _
      rw [ih]
      rfl

theorem successes_eq (results : List (Nat × Except Fault α)) :
    Gathering.successes results = results.filterMap fun x => x.2.toOption.map fun v => (x.1, v) := by
  induction results with
  | nil => rfl
  | cons x rest ih =>
    obtain ⟨k, f | v⟩ := x
    · exact ih
    · show (k, v) :: Gathering.successes rest = _
      rw [ih]
      rfl

theorem filterMap_range_getElem? (l : List α) : (List.range l.length).filterMap (fun i => l[i]?) = l := by
  induction l with
  | nil => rfl
  | cons x rest ih =>
    rw [List.length_cons, List.range_succ_eq_map, List.filterMap_cons]
    simpa [List.filterMap_map, Function.comp_def] using ih

/-- The positions of successful results are a sublist of all positions. -/
theorem keys_successes_sublist (results : List (Nat × Except Fault α)) :
    ((Gathering.successes results).map Prod.fst).Sublist (results.map Prod.fst) := by
  induction results with
  | nil => exact .slnil
  | cons x rest ih =>
    obtain ⟨k, f | v⟩ := x
    · exact ih.cons k
    · exact ih.cons_cons k

theorem mapIdx_pair_fst (items : List ι) :
    (items.mapIdx fun i x => (i, x)).map Prod.fst = List.range items.length := by
  apply List.ext_getElem
  · simp
  · simp

theorem mapIdx_pair_snd (items : List ι) : (items.mapIdx fun i x => (i, x)).map Prod.snd = items := by
  apply List.ext_getElem
  · simp
  · simp

/-- `inOrder` sorts the values by their positions. -/
theorem inOrder_eq {results : List (Nat × Except Fault α)} {vs : List α}
    (hkeys : (results.map Prod.fst).Nodup)
    (hvalues : ∀ (i : Nat) (h : i < vs.length), (i, Except.ok vs[i]) ∈ results) :
    Gathering.inOrder (Gathering.successes results) vs.length = vs := by
  have hnodup : ((Gathering.successes results).map Prod.fst).Nodup :=
    (keys_successes_sublist results).nodup hkeys
  have hfind : ∀ i ∈ List.range vs.length, OrderedMap.find i (Gathering.successes results) = vs[i]? := by
    intro i hi
    have hlt : i < vs.length := List.mem_range.mp hi
    rw [List.getElem?_eq_getElem hlt]
    refine OrderedMap.find_of_mem hnodup ?_
    rw [successes_eq, List.mem_filterMap]
    exact ⟨_, hvalues i hlt, rfl⟩
  unfold Gathering.inOrder
  rw [List.filterMap_congr hfind]
  exact filterMap_range_getElem? vs

/-! ## Gathering -/

theorem belong_positioned {items : List ι} {work : ι → Work σ α}
    (h : ∀ x ∈ items, EndsAfter c s₀ (r x) (es x) (delay x) (work x)) :
    Belong c s₀ r es delay (positioned (items.map work)) (items.mapIdx fun i x => (i, x)) := by
  unfold Belong
  rw [List.forall₂_iff_get]
  refine ⟨by simp [positioned], fun i hi hi' => ?_⟩
  have hlt : i < items.length := by simpa using hi'
  simpa [positioned] using h items[i] (List.getElem_mem hlt)

theorem gather_eq (limit : Nat) {works : List (Work σ α)} {results : List (Nat × Except Fault α)} {s t : σ}
    (h : (Gathering.rounds limit (positioned works) []).drive s = (.ok results, t)) :
    (gather limit works).drive s = (Gathering.together results works.length, t) := by
  rw [gather, drive_bind, h]
  rfl

section

variable {items : List ι} {order : List (Nat × ι)}

/-- The first failure does not depend on positions. -/
theorem failure?_resultsOn (order : List (Nat × ι)) :
    Gathering.failure? (resultsOn r (occasions (fun y => es y.2) xs order)) =
      (occasions es xs (order.map Prod.snd)).findSome? fun o => faultOf (r o.1 o.2) := by
  rw [failure?_eq, resultsOn, List.findSome?_map, ← map_occasions_snd, List.findSome?_map]
  rfl

theorem mem_occasions_snd {y : Nat × ι} {prior : List ε}
    (h : (y, prior) ∈ occasions (fun y => es y.2) xs order) :
    (y.2, prior) ∈ occasions es xs (order.map Prod.snd) := by
  rw [← map_occasions_snd]
  exact List.mem_map_of_mem (f := fun o : (Nat × ι) × List ε => (o.1.2, o.2)) h

theorem keys_resultsOn (order : List (Nat × ι)) :
    (resultsOn r (occasions (fun y => es y.2) xs order)).map Prod.fst = order.map Prod.fst := by
  conv => rhs; rw [← map_fst_occasions (fun y : Nat × ι => es y.2) xs order]
  rw [resultsOn, List.map_map, List.map_map]
  rfl

/-- If every item has its value on every occasion, the outcome is the list of all values. -/
theorem together_resultsOn {vs : List α} (horder : order.Perm (items.mapIdx fun i x => (i, x)))
    (hvs : List.Forall₂ (fun x v => ∀ prior, (x, prior) ∈ occasions es xs (order.map Prod.snd) →
      r x prior = .ok v) items vs) :
    Gathering.together (resultsOn r (occasions (fun y => es y.2) xs order)) items.length = .ok vs := by
  obtain ⟨hlength, hvalue⟩ := List.forall₂_iff_get.mp hvs
  have hoccasions := map_fst_occasions (fun y : Nat × ι => es y.2) xs order
  have hresult : ∀ (y : Nat × ι) prior, (y, prior) ∈ occasions (fun y => es y.2) xs order →
      ∃ h : y.1 < vs.length, r y.2 prior = .ok vs[y.1] := by
    intro y prior hy
    have hmem : y ∈ items.mapIdx fun i x => (i, x) :=
      horder.mem_iff.mp (hoccasions ▸ List.mem_map_of_mem (f := Prod.fst) hy)
    obtain ⟨i, hi, rfl⟩ := List.mem_iff_getElem.mp hmem
    have hlt : i < items.length := by simpa using hi
    refine ⟨by simpa [← hlength] using hlt, ?_⟩
    simpa using hvalue i hlt (hlength ▸ hlt) prior (by simpa using mem_occasions_snd hy)
  have hnone : Gathering.failure? (resultsOn r (occasions (fun y => es y.2) xs order)) = none := by
    rw [failure?_eq, List.findSome?_eq_none_iff]
    intro x hx
    obtain ⟨⟨y, prior⟩, hy, rfl⟩ := List.mem_map.mp hx
    obtain ⟨h, hok⟩ := hresult y prior hy
    exact faultOf_eq_none_iff.mpr ⟨_, hok⟩
  have hkeys : ((resultsOn r (occasions (fun y => es y.2) xs order)).map Prod.fst).Nodup := by
    rw [keys_resultsOn, (horder.map Prod.fst).nodup_iff, mapIdx_pair_fst]
    exact List.nodup_range
  rw [Gathering.together, hnone, hlength]
  refine congrArg Except.ok (inOrder_eq hkeys fun i hi => ?_)
  -- the item at the position is done on some occasion
  have hlt : i < items.length := hlength ▸ hi
  have hmem : (i, items[i]) ∈ order :=
    horder.mem_iff.mpr (List.mem_iff_getElem.mpr ⟨i, by simpa using hlt, by simp⟩)
  rw [← hoccasions] at hmem
  obtain ⟨⟨y, prior⟩, hy, hfst⟩ := List.mem_map.mp hmem
  obtain rfl : y = (i, items[i]) := hfst
  obtain ⟨_, hok⟩ := hresult _ prior hy
  exact List.mem_map.mpr ⟨_, hy, by rw [hok]⟩

end

/-- `gather` run alone: the results of all pieces, or the failure of the first piece to fail. -/
theorem gather_drive (limit : Nat) {items : List ι} {work : ι → Work σ α}
    (h : ∀ x ∈ items, EndsAfter c s₀ (r x) (es x) (delay x) (work x)) :
    ∃ outcome t, (gather limit (items.map work)).drive s₀ = (outcome, t) ∧
      c.relates (eventsOn es (occasions es [] (doneOrder limit delay items))) s₀ t ∧
      (∀ vs, List.Forall₂ (fun x v => ∀ prior,
        (x, prior) ∈ occasions es [] (doneOrder limit delay items) → r x prior = .ok v) items vs →
          outcome = .ok vs) ∧
      ∀ f, (occasions es [] (doneOrder limit delay items)).findSome? (fun o => faultOf (r o.1 o.2)) = some f →
        outcome = .error f := by
  obtain ⟨t, hdrive, ht⟩ := rounds_drive limit [] (belong_positioned h) (c.refl s₀)
  have hsnd := map_snd_doneOrder limit delay (items.mapIdx fun i x => (i, x))
  rw [mapIdx_pair_snd] at hsnd
  generalize horder : doneOrder limit (fun y : Nat × ι => delay y.2) (items.mapIdx fun i x => (i, x)) =
    order at hdrive ht hsnd
  have hperm : order.Perm (items.mapIdx fun i x => (i, x)) := horder ▸ doneOrder_perm limit _ _
  rw [List.nil_append] at hdrive
  rw [← hsnd]
  refine ⟨_, t, gather_eq limit hdrive, ?_, ?_, ?_⟩
  · rw [← map_occasions_snd, eventsOn, List.flatMap_map]
    exact ht
  · intro vs hvs
    rw [List.length_map]
    exact together_resultsOn hperm hvs
  · intro f hf
    rw [Gathering.together, failure?_resultsOn, hf]

/-- `gather` of a single piece that finishes in its first turn. -/
theorem gather_singleton {w : Work σ α} {s t : σ} {x : α} (h : w.turn s = (.done (.ok x), t))
    (limit : Nat) : (gather (limit + 1) [w]).drive s = (.ok [x], t) := by
  have hposition : positioned [w] = [(0, w)] := by simp [positioned]
  have hround : Gathering.round [] [(0, w)] s = (⟨[], [(0, .ok x)]⟩, t) := by
    unfold Gathering.round
    simp only [List.foldl_cons, List.foldl_nil, Gathering.takeTurn, h, result?]
    rfl
  unfold gather
  rw [drive_bind, hposition]
  simp only [Gathering.rounds, drive, hround]
  rfl

end Polyscan.Work
