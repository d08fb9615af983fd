import Polyscan.Bus.Reactive
import Polyscan.Proofs.Items
import Polyscan.Proofs.Subscription.Ledger

/-!
Histories of a bus whose listeners react to events. `Scene.moves` lists the steps of one act, emissions where
they begin, and `Scene.history` those of consecutive acts. An event is delivered to the audience of the ledger
of the history before it, and to no other listener at any later time, if all cancellations before it were
orderly.
-/
namespace Polyscan

/-- `unsubscribe` erases the first subscription of the listener from the audience of the topic. -/
theorem Bus.audience_unsubscribe {κ : Type} [DecidableEq κ] (b : Bus κ) (t u : Topic) (k : κ) :
    (b.unsubscribe t k).audience u = if t = u then (b.audience u).erase k else b.audience u := by
  unfold audience unsubscribe
  induction b.subscriptions with
  | nil => simp
  | cons e rest ih =>
    obtain ⟨v, j⟩ := e
    by_cases he : (v, j) = (t, k)
    · cases he
      by_cases hu : t = u <;> simp [hu]
    · have hbeq : ((v, j) == (t, k)) = false := beq_eq_false_iff_ne.mpr he
      rw [List.erase_cons, hbeq]
      by_cases hu : t = u
      · subst hu
        by_cases hv : v = t
        · subst hv
          have hj : j ≠ k := fun hjk => he (hjk ▸ rfl)
          simpa [hj, List.erase_cons] using ih
        · simpa [hv] using ih
      · by_cases hv : v = u <;> simpa [hu, hv] using ih

namespace Scene

variable {ℓ : Type}

/-! ## Steps -/

/-- Delivers an event to one listener, which reacts. -/
def deliver (depth : Nat) (p : Published ℓ) (k : String) : Effect ℓ := fun s =>
  match s.reaction? k with
  | some a => perform depth a (s.record k p)
  | none => (.ok (), s.record k p)

theorem perform_publish (depth : Nat) (e : Event ℓ) (s : Scene ℓ) :
    perform (depth + 1) (.publish e) s =
      deliverAll (deliver depth ⟨s.clock, e⟩) (s.bus.audience e.topic) { s with clock := s.clock + 1 } :=
  rfl

/-- The steps while an event is delivered to listeners in turn, up to the first that raises. -/
def movesOfAll (moves : String → Scene ℓ → List (BusMove ℓ)) (deliver : String → Effect ℓ) :
    List String → Scene ℓ → List (BusMove ℓ)
  | [], _ => []
  | k :: rest, s =>
    moves k s ++
      match deliver k s with
      | (.ok (), s') => movesOfAll moves deliver rest s'
      | (.error _, _) => []

/-- The steps of an act. -/
def moves : Nat → Act ℓ → Scene ℓ → List (BusMove ℓ)
  | _, .subscribe handle listener topic _, _ =>
    match Topic.ofName topic with
    | .error _ => []
    | .ok t => [.subscribed handle t listener]
  | _, .unsubscribe handle, _ => [.cancelled handle]
  | _, .fail _, _ => []
  | 0, .publish _, _ => []
  | depth + 1, .publish event, s =>
    let p : Published ℓ := ⟨s.clock, event⟩
    .emitted p (perform (depth + 1) (.publish event) s).1 ::
      movesOfAll (fun k s => ((s.reaction? k).map fun a => moves depth a (s.record k p)).getD [])
        (deliver depth p) (s.bus.audience event.topic) { s with clock := s.clock + 1 }

/-- Performs acts one after another, whether or not they fail. -/
def performAll (depth : Nat) (acts : List (Act ℓ)) (s : Scene ℓ) : Scene ℓ :=
  acts.foldl (fun s a => (perform depth a s).2) s

/-- The steps of consecutive acts. -/
def history (depth : Nat) : List (Act ℓ) → Scene ℓ → List (BusMove ℓ)
  | [], _ => []
  | a :: rest, s => moves depth a s ++ history depth rest (perform depth a s).2

/-- The deliveries of the event with a reading of the clock. -/
def deliveriesAt (s : Scene ℓ) (tick : Nat) : List (String × Published ℓ) :=
  s.calls.filter fun c => c.2.tick = tick

/-- The event was delivered once to each of the listeners, in order, up to the first that raised, with this
outcome. -/
structure Delivered (s : Scene ℓ) (listeners : List String) (p : Published ℓ)
    (outcome : Except Fault Unit) : Prop where
  upTo : s.deliveriesAt p.tick <+: listeners.map fun k => (k, p)
  all : outcome = .ok () → s.deliveriesAt p.tick = listeners.map fun k => (k, p)

/-! ## The clock -/

/-- From `s` to `s'` the clock advanced, and only the event with the given reading and events that were
emitted in between were delivered. -/
structure Since (tick : Nat) (s s' : Scene ℓ) : Prop where
  clock : s.clock ≤ s'.clock
  calls : ∃ new, s'.calls = s.calls ++ new ∧
    ∀ c ∈ new, (c.2.tick = tick ∨ s.clock ≤ c.2.tick) ∧ c.2.tick < s'.clock

theorem Since.rfl {tick : Nat} {s : Scene ℓ} : Since tick s s :=
  ⟨Nat.le_refl _, [], (List.append_nil _).symm, fun _ h => nomatch h⟩

theorem Since.trans {tick : Nat} {s s' s'' : Scene ℓ} (h : Since tick s s') (h' : Since tick s' s'') :
    Since tick s s'' := by
  obtain ⟨new, hcalls, hnew⟩ := h.calls
  obtain ⟨new', hcalls', hnew'⟩ := h'.calls
  refine ⟨Nat.le_trans h.clock h'.clock, new ++ new',
    by rw [hcalls', hcalls, List.append_assoc], ?_⟩
  intro c hc
  rcases List.mem_append.mp hc with hc | hc
  · exact ⟨(hnew c hc).1, Nat.lt_of_lt_of_le (hnew c hc).2 h'.clock⟩
  · exact ⟨(hnew' c hc).1.imp_right (Nat.le_trans h.clock), (hnew' c hc).2⟩

/-- If only events were delivered that were emitted in between, no other reading matters. -/
theorem Since.during {s s' : Scene ℓ} (h : Since s.clock s s') (tick : Nat) : Since tick s s' := by
  obtain ⟨new, hcalls, hnew⟩ := h.calls
  refine ⟨h.clock, new, hcalls, fun c hc => ⟨.inr ?_, (hnew c hc).2⟩⟩
  rcases (hnew c hc).1 with heq | hle
  · exact Nat.le_of_eq heq.symm
  · exact hle

/-- No earlier event is delivered any more. -/
theorem Since.deliveriesAt_eq {tick t : Nat} {s s' : Scene ℓ} (h : Since tick s s') (ht : t < s.clock)
    (hne : t ≠ tick) : s'.deliveriesAt t = s.deliveriesAt t := by
  obtain ⟨new, hcalls, hnew⟩ := h.calls
  have hnone : new.filter (fun c => c.2.tick = t) = [] := by
    rw [List.filter_eq_nil_iff]
    intro c hc htick
    have hc' := (hnew c hc).1
    simp only [decide_eq_true_eq] at htick
    omega
  rw [deliveriesAt, hcalls, List.filter_append, hnone, List.append_nil, ← deliveriesAt]

theorem since_record {s : Scene ℓ} {p : Published ℓ} (hp : p.tick < s.clock) (k : String) :
    Since p.tick s (s.record k p) :=
  ⟨Nat.le_refl _, [(k, p)], rfl, fun c hc => by
    cases List.mem_singleton.mp hc
    exact ⟨.inl (Eq.refl _), hp⟩⟩

theorem since_deliverAll {tick : Nat} {deliver : String → Effect ℓ}
    (hdeliver : ∀ k s, tick < s.clock → Since tick s (deliver k s).2) (ks : List String) (s : Scene ℓ)
    (hs : tick < s.clock) : Since tick s (deliverAll deliver ks s).2 := by
  induction ks generalizing s with
  | nil => exact .rfl
  | cons k rest ih =>
    have hk := hdeliver k s hs
    simp only [deliverAll]
    split
    · next s' heq =>
      rw [heq] at hk
      exact hk.trans (ih s' (Nat.lt_of_lt_of_le hs hk.clock))
    · next f s' heq =>
      rw [heq] at hk
      exact hk

theorem introduce_rest (s : Scene ℓ) (listener : String) (reaction : Option (Act ℓ)) :
    s.introduce listener reaction = { s with reactions := (s.introduce listener reaction).reactions } := by
  unfold introduce
  split <;> rfl

/-- An act that emits nothing leaves the clock and the deliveries unchanged. -/
theorem perform_of_quiet (depth : Nat) {a : Act ℓ} (ha : ∀ e, a ≠ .publish e) (s : Scene ℓ) :
    (perform depth a s).2.clock = s.clock ∧ (perform depth a s).2.calls = s.calls := by
  cases a with
  | subscribe handle listener topic reaction =>
    rw [perform, introduce_rest]
    cases Topic.ofName topic <;> exact ⟨rfl, rfl⟩
  | unsubscribe handle =>
    rw [perform]
    cases OrderedMap.find handle s.handles <;> exact ⟨rfl, rfl⟩
  | fail f =>
    rw [perform]
    exact ⟨rfl, rfl⟩
  | publish e => exact absurd rfl (ha e)

theorem since_of_quiet {s s' : Scene ℓ} (h : s'.clock = s.clock ∧ s'.calls = s.calls) :
    Since s.clock s s' :=
  ⟨Nat.le_of_eq h.1.symm, [], by rw [h.2, List.append_nil], fun _ h => nomatch h⟩

theorem since_deliver {depth : Nat}
    (hperform : ∀ a (s : Scene ℓ), Since s.clock s (perform depth a s).2) {p : Published ℓ} (k : String)
    (s : Scene ℓ) (hp : p.tick < s.clock) : Since p.tick s (deliver depth p k s).2 := by
  have hrecord := since_record hp k
  unfold deliver
  split
  · next a _ => exact hrecord.trans ((hperform a (s.record k p)).during _)
  · exact hrecord

theorem since_perform (depth : Nat) (a : Act ℓ) (s : Scene ℓ) :
    Since s.clock s (perform depth a s).2 := by
  -- reactions are one level deeper, so the induction is on the depth and not on the act
  induction depth generalizing a s with
  | zero =>
    cases a with
    | publish e => exact .rfl
    | _ => exact since_of_quiet (perform_of_quiet _ (by simp) s)
  | succ depth ih =>
    cases a with
    | publish e =>
      rw [perform_publish]
      have h := since_deliverAll (fun k s' hp => since_deliver (p := ⟨s.clock, e⟩) ih k s' hp)
        (s.bus.audience e.topic) { s with clock := s.clock + 1 } (Nat.lt_succ_self _)
      obtain ⟨new, hcalls, hnew⟩ := h.calls
      exact ⟨Nat.le_trans (Nat.le_succ _) h.clock, new, hcalls, fun c hc =>
        ⟨(hnew c hc).1.imp_right (Nat.le_trans (Nat.le_succ _)), (hnew c hc).2⟩⟩
    | _ => exact since_of_quiet (perform_of_quiet _ (by simp) s)

theorem since_performAll (depth : Nat) (acts : List (Act ℓ)) (s : Scene ℓ) :
    Since s.clock s (performAll depth acts s) := by
  induction acts generalizing s with
  | nil => exact .rfl
  | cons a rest ih => exact (since_perform depth a s).trans ((ih (perform depth a s).2).during _)

/-! ## One publication -/

theorem deliveriesAt_record (s : Scene ℓ) (k : String) (p : Published ℓ) :
    (s.record k p).deliveriesAt p.tick = s.deliveriesAt p.tick ++ [(k, p)] := by
  simp [deliveriesAt, record, List.filter_append]

/-- The event is delivered once; the reaction of the listener does not deliver the same event. -/
theorem deliveriesAt_deliver (depth : Nat) {p : Published ℓ} (k : String) (s : Scene ℓ) (hp : p.tick < s.clock) :
    (deliver depth p k s).2.deliveriesAt p.tick = s.deliveriesAt p.tick ++ [(k, p)] := by
  rw [← deliveriesAt_record]
  unfold deliver
  split
  · next a _ => exact (since_perform depth a (s.record k p)).deliveriesAt_eq hp (Nat.ne_of_lt hp)
  · rfl

theorem deliveriesAt_deliverAll (depth : Nat) {p : Published ℓ} (ks : List String) (s : Scene ℓ)
    (hp : p.tick < s.clock) :
    ∃ heard, heard <+: ks ∧ ((deliverAll (deliver depth p) ks s).1 = .ok () → heard = ks) ∧
      (deliverAll (deliver depth p) ks s).2.deliveriesAt p.tick =
        s.deliveriesAt p.tick ++ heard.map fun k => (k, p) := by
  induction ks generalizing s with
  | nil => exact ⟨[], List.nil_prefix, fun _ => rfl, by simp [deliverAll]⟩
  | cons k rest ih =>
    have hk := deliveriesAt_deliver depth k s hp
    have hsince := since_deliver (since_perform depth) k s hp
    simp only [deliverAll]
    split
    · next s' heq =>
      rw [heq] at hk hsince
      obtain ⟨heard, hprefix, hall, hdeliveries⟩ := ih s' (Nat.lt_of_lt_of_le hp hsince.clock)
      refine ⟨k :: heard, List.prefix_cons_inj k |>.mpr hprefix, fun hok => by rw [hall hok], ?_⟩
      rw [hdeliveries, hk]
      simp
    · next f s' heq =>
      rw [heq] at hk
      exact ⟨[k], by simp, by simp, hk⟩

/-! ## The bus and the ledger -/

/-- The bus has the audience of the ledger for every topic, and all deliveries are of earlier events. -/
structure Keeps (s : Scene ℓ) (l : Ledger) : Prop where
  wellKept : l.WellKept
  audience : ∀ topic, s.bus.audience topic = l.audience topic
  handles : ∀ handle, OrderedMap.find handle s.handles =
    (OrderedMap.find handle l.named).map fun r => (r.topic, r.listener)
  past : ∀ c ∈ s.calls, c.2.tick < s.clock

theorem keeps_empty : Keeps ({} : Scene ℓ) {} where
  wellKept := Ledger.wellKept_empty
  audience := fun _ => rfl
  handles := fun _ => rfl
  past := fun _ h => nomatch h

theorem Keeps.record {s : Scene ℓ} {l : Ledger} (h : Keeps s l) (k : String) {p : Published ℓ}
    (hp : p.tick < s.clock) : Keeps (s.record k p) l where
  wellKept := h.wellKept
  audience := h.audience
  handles := h.handles
  past := by
    intro c hc
    rcases List.mem_append.mp hc with hc | hc
    · exact h.past c hc
    · cases List.mem_singleton.mp hc
      exact hp

theorem Keeps.ticked {s : Scene ℓ} {l : Ledger} (h : Keeps s l) :
    Keeps { s with clock := s.clock + 1 } l where
  wellKept := h.wellKept
  audience := h.audience
  handles := h.handles
  past := fun c hc => Nat.lt_succ_of_lt (h.past c hc)

/-- The next event was not delivered yet. -/
theorem Keeps.deliveriesAt_clock {s : Scene ℓ} {l : Ledger} (h : Keeps s l) : s.deliveriesAt s.clock = [] := by
  rw [deliveriesAt, List.filter_eq_nil_iff]
  intro c hc htick
  exact Nat.ne_of_lt (h.past c hc) (of_decide_eq_true htick)

theorem Keeps.subscribe {s : Scene ℓ} {l : Ledger} (h : Keeps s l) (handle : String) (t : Topic)
    (k : String) (reactions : List (String × Option (Act ℓ))) :
    Keeps { s with
      bus := s.bus.subscribe t k
      handles := OrderedMap.put handle (t, k) s.handles
      reactions := reactions } (l.subscribe handle t k) where
  wellKept := h.wellKept.subscribe handle t k
  audience := by
    intro u
    rw [Ledger.audience_subscribe h.wellKept, ← h.audience u]
    exact Bus.audience_subscribe s.bus t u k
  handles := by
    intro name
    simp only [Ledger.subscribe, OrderedMap.find_put, h.handles]
    split <;> rfl
  past := h.past

theorem Keeps.cancel {s : Scene ℓ} {l : Ledger} (h : Keeps s l) {r : Subscription} (hr : r ∈ l.made)
    (hfrees : l.Frees r) :
    Keeps { s with bus := s.bus.unsubscribe r.topic r.listener } (l.cancel r) where
  wellKept := h.wellKept.cancel hr
  audience := by
    intro u
    have hbus : (s.bus.unsubscribe r.topic r.listener).audience u = _ := Bus.audience_unsubscribe ..
    show (s.bus.unsubscribe r.topic r.listener).audience u = _
    rw [hbus, h.audience]
    split
    · next heq => rw [← heq, (Ledger.audience_cancel_iff h.wellKept r).mpr hfrees]
    · next hne => rw [Ledger.audience_cancel_of_ne l r hne]
  handles := h.handles
  past := h.past

/-! ## A whole history -/

theorem Delivered.of_deliveriesAt_eq {s s' : Scene ℓ} {listeners : List String} {p : Published ℓ}
    {outcome : Except Fault Unit} (h : s.Delivered listeners p outcome)
    (hdeliveries : s'.deliveriesAt p.tick = s.deliveriesAt p.tick) : s'.Delivered listeners p outcome :=
  ⟨hdeliveries ▸ h.upTo, fun hok => hdeliveries ▸ h.all hok⟩

/-- From `s` to `s'` the given steps were made. The bus follows the ledger if they were orderly, and every
event with only orderly steps before it was delivered. -/
structure Faithful (s : Scene ℓ) (l : Ledger) (ms : List (BusMove ℓ)) (s' : Scene ℓ) : Prop where
  keeps : l.Orderly ms → Keeps s' (l.after ms)
  delivered : ∀ before p outcome rest, ms = before ++ .emitted p outcome :: rest → l.Orderly before →
    s.clock ≤ p.tick ∧ p.tick < s'.clock ∧
      s'.Delivered ((l.after before).audience p.event.topic) p outcome

theorem Faithful.nil {s s' : Scene ℓ} {l : Ledger} (h : Keeps s' l) : Faithful s l [] s' where
  keeps := fun _ => h
  delivered := fun _ _ _ _ hms => absurd hms (by simp)

theorem Faithful.quiet {s s' : Scene ℓ} {l : Ledger} {m : BusMove ℓ}
    (hm : ∀ p outcome, m ≠ .emitted p outcome) (h : l.Permits m → Keeps s' (l.enter m)) :
    Faithful s l [m] s' where
  keeps := fun ho => h ho.1
  delivered := by
    intro before p outcome rest hms
    rcases List.singleton_eq_append_iff.mp hms with ⟨-, hrest⟩ | ⟨-, hrest⟩
    · exact absurd (List.cons.inj hrest).1.symm (hm p outcome)
    · exact absurd hrest.symm (by simp)

/-- A delivery is not affected by later steps. -/
theorem Faithful.append {s s' s'' : Scene ℓ} {l : Ledger} {ms ns : List (BusMove ℓ)} {tick : Nat}
    (h : Faithful s l ms s') (hclock : s.clock ≤ s'.clock) (hsince : Since tick s' s'')
    (htick : tick < s.clock ∨ s'.clock ≤ tick) (h' : l.Orderly ms → Faithful s' (l.after ms) ns s'') :
    Faithful s l (ms ++ ns) s'' where
  keeps := by
    intro ho
    rw [Ledger.orderly_append] at ho
    rw [Ledger.after_append]
    exact (h' ho.1).keeps ho.2
  delivered := by
    intro before p outcome rest heq ho
    rcases append_eq_append_cons heq with ⟨between, hms⟩ | ⟨behind, rfl, hns⟩
    -- no event of the first part is delivered any more: its reading of the clock is past, and it is
    -- not the one that is being delivered
    · obtain ⟨hlow, hhigh, hdelivered⟩ := h.delivered before p outcome between hms ho
      have hdeliveries := hsince.deliveriesAt_eq hhigh (by omega)
      exact ⟨hlow, Nat.lt_of_lt_of_le hhigh hsince.clock, hdelivered.of_deliveriesAt_eq hdeliveries⟩
    · rw [Ledger.orderly_append] at ho
      rw [Ledger.after_append]
      obtain ⟨hlow, hhigh, hdelivered⟩ := (h' ho.1).delivered behind p outcome rest hns ho.2
      exact ⟨Nat.le_trans hclock hlow, hhigh, hdelivered⟩

/-- The steps of the reaction of one listener. -/
def movesOfDelivery (depth : Nat) (p : Published ℓ) (k : String) (s : Scene ℓ) : List (BusMove ℓ) :=
  ((s.reaction? k).map fun a => moves depth a (s.record k p)).getD []

theorem faithful_deliver {depth : Nat}
    (hperform : ∀ a s l, Keeps s l → Faithful s l (moves (ℓ := ℓ) depth a s) (perform depth a s).2)
    {p : Published ℓ} (k : String) {s : Scene ℓ} {l : Ledger} (hp : p.tick < s.clock) (h : Keeps s l) :
    Faithful s l (movesOfDelivery depth p k s) (deliver depth p k s).2 := by
  have hrecord := h.record k hp
  unfold movesOfDelivery deliver
  cases hk : s.reaction? k with
  | none => exact .nil hrecord
  | some a => exact ⟨(hperform a _ l hrecord).keeps, (hperform a _ l hrecord).delivered⟩

theorem faithful_deliverAll {depth : Nat}
    (hperform : ∀ a s l, Keeps s l → Faithful s l (moves (ℓ := ℓ) depth a s) (perform depth a s).2)
    {p : Published ℓ} (ks : List String) {s : Scene ℓ} {l : Ledger} (hp : p.tick < s.clock)
    (h : Keeps s l) :
    Faithful s l (movesOfAll (movesOfDelivery depth p) (deliver depth p) ks s)
      (deliverAll (deliver depth p) ks s).2 := by
  induction ks generalizing s l with
  | nil => exact .nil h
  | cons k rest ih =>
    have hk := faithful_deliver hperform k hp h
    have hsince := since_deliver (since_perform depth) k s hp
    rcases heq : deliver depth p k s with ⟨f | ⟨⟩, s'⟩
    all_goals
      rw [heq] at hk hsince
      simp only [movesOfAll, deliverAll, heq]
    · rwa [List.append_nil]
    · have hp' : p.tick < s'.clock := Nat.lt_of_lt_of_le hp hsince.clock
      have hrest := since_deliverAll (since_deliver (since_perform depth)) rest s' hp'
      exact hk.append hsince.clock hrest (.inl hp) fun ho => ih hp' (hk.keeps ho)

theorem faithful_subscribe (depth : Nat) (handle listener topic : String) (reaction : Option (Act ℓ))
    {s : Scene ℓ} {l : Ledger} (h : Keeps s l) :
    Faithful s l (moves depth (.subscribe handle listener topic reaction) s)
      (perform depth (.subscribe handle listener topic reaction) s).2 := by
  rw [moves, perform, introduce_rest]
  cases Topic.ofName topic with
  | error f => exact .nil ⟨h.wellKept, h.audience, h.handles, h.past⟩
  | ok t => exact .quiet (by simp) fun _ => h.subscribe handle t listener _

theorem faithful_unsubscribe (depth : Nat) (handle : String) {s : Scene ℓ} {l : Ledger} (h : Keeps s l) :
    Faithful s l (moves depth (.unsubscribe handle) s) (perform depth (.unsubscribe handle) s).2 := by
  rw [moves, perform]
  refine .quiet (by simp) fun hpermits => ?_
  rw [h.handles, Ledger.enter]
  cases hl : OrderedMap.find handle l.named with
  | none => exact h
  | some r => exact h.cancel (h.wellKept.named handle r hl) (hpermits r hl)

theorem faithful_publish {depth : Nat}
    (hperform : ∀ a s l, Keeps s l → Faithful s l (moves (ℓ := ℓ) depth a s) (perform depth a s).2)
    (e : Event ℓ) {s : Scene ℓ} {l : Ledger} (h : Keeps s l) :
    Faithful s l (moves (depth + 1) (.publish e) s) (perform (depth + 1) (.publish e) s).2 := by
  let p : Published ℓ := ⟨s.clock, e⟩
  let ks := s.bus.audience e.topic
  let s₁ : Scene ℓ := { s with clock := s.clock + 1 }
  have hp : p.tick < s₁.clock := Nat.lt_succ_self _
  have hinner := faithful_deliverAll hperform ks hp h.ticked
  have hsince := since_deliverAll (since_deliver (p := p) (since_perform depth)) ks s₁ hp
  obtain ⟨heard, hprefix, hall, hdeliveries⟩ := deliveriesAt_deliverAll depth ks s₁ hp
  have hbefore : s₁.deliveriesAt p.tick = [] := h.deliveriesAt_clock
  rw [hbefore, List.nil_append] at hdeliveries
  refine ⟨fun ho => hinner.keeps ho.2, ?_⟩
  intro before q outcome rest heq ho
  -- the event comes before the reactions to it: it is this one or one that a reaction emits
  cases before with
  | nil =>
    cases heq
    refine ⟨Nat.le_refl _, Nat.lt_of_lt_of_le hp hsince.clock, ?_, ?_⟩
    · rw [Ledger.after_nil, ← h.audience]
      exact hdeliveries ▸ hprefix.map _
    · intro hok
      rw [Ledger.after_nil, ← h.audience]
      rw [hall hok] at hdeliveries
      exact hdeliveries
  | cons m before =>
    rw [moves, List.cons_append, List.cons.injEq] at heq
    obtain ⟨rfl, heq⟩ := heq
    obtain ⟨hlow, hhigh, hdelivered⟩ := hinner.delivered before q outcome rest heq ho.2
    exact ⟨Nat.le_of_succ_le hlow, hhigh, hdelivered⟩

/-- In every act, with every reaction of listeners, the bus follows the ledger as long as cancellations are
orderly. -/
theorem faithful_perform (depth : Nat) (a : Act ℓ) (s : Scene ℓ) (l : Ledger) (h : Keeps s l) :
    Faithful s l (moves depth a s) (perform depth a s).2 := by
  induction depth generalizing a s l with
  | zero =>
    cases a with
    | subscribe handle listener topic reaction => exact faithful_subscribe _ _ _ _ _ h
    | unsubscribe handle => exact faithful_unsubscribe _ _ h
    | fail f => exact .nil h
    | publish e => exact .nil h
  | succ depth ih =>
    cases a with
    | subscribe handle listener topic reaction => exact faithful_subscribe _ _ _ _ _ h
    | unsubscribe handle => exact faithful_unsubscribe _ _ h
    | fail f => exact .nil h
    | publish e => exact faithful_publish ih e h

theorem faithful_history (depth : Nat) (acts : List (Act ℓ)) (s : Scene ℓ) (l : Ledger) (h : Keeps s l) :
    Faithful s l (history depth acts s) (performAll depth acts s) := by
  induction acts generalizing s l with
  | nil => exact .nil h
  | cons a rest ih =>
    have ha := faithful_perform depth a s l h
    have hrest : Since (perform depth a s).2.clock (perform depth a s).2
        (performAll depth (a :: rest) s) := since_performAll depth rest _
    exact ha.append (since_perform depth a s).clock hrest (.inr (Nat.le_refl _)) fun ho =>
      ih _ _ (ha.keeps ho)

/-- Delivery in `performAll`, for every history of acts and reactions of listeners. An event is delivered once
for each subscription of its topic that was made before it and whose own unsubscribe function was not called,
in the order of subscription, up to the first listener that raises. Unsubscribe functions may have been called
repeatedly, if each call was orderly: its subscription was in the first run of live ones of its listener, or
the listener had none left. -/
theorem history_delivers (depth : Nat) (acts : List (Act ℓ)) (before rest : List (BusMove ℓ))
    (p : Published ℓ) (outcome : Except Fault Unit)
    (hhistory : history depth acts {} = before ++ .emitted p outcome :: rest)
    (hbefore : Ledger.Orderly {} before) :
    (performAll depth acts {}).Delivered ((Ledger.after {} before).audience p.event.topic) p outcome :=
  ((faithful_history depth acts {} {} keeps_empty).delivered before p outcome rest hhistory hbefore).2.2

/-- Two listeners, two calls of the unsubscribe function of the first subscription, and an event. -/
def cancelledTwice : List (Act LogLevel) :=
  [.subscribe "first" "printer" "LogEvent" none, .subscribe "second" "recorder" "LogEvent" none,
    .unsubscribe "first", .unsubscribe "first", .publish (.log .info "hello")]

/-- The second call has no effect, and the event is delivered to the other listener. -/
theorem history_delivers_cancelledTwice :
    Ledger.Orderly {} ([.subscribed "first" .log "printer", .subscribed "second" .log "recorder",
      .cancelled "first", .cancelled "first"] : List (BusMove LogLevel)) ∧
    (performAll 1 cancelledTwice {}).Delivered ["recorder"] ⟨0, .log .info "hello"⟩ (.ok ()) := by
  have horderly : Ledger.Orderly {} ([.subscribed "first" .log "printer",
      .subscribed "second" .log "recorder", .cancelled "first", .cancelled "first"] :
        List (BusMove LogLevel)) := by
    refine ⟨trivial, trivial, ?_, ?_, trivial⟩
    · intro s hs
      cases hs
      exact .inr (by decide)
    · intro s hs
      cases hs
      exact .inl (by decide)
  exact ⟨horderly, history_delivers 1 cancelledTwice _ [] ⟨0, .log .info "hello"⟩ (.ok ()) rfl horderly⟩

/-- One listener with two subscriptions, two calls of the unsubscribe function of the first one, and an event. -/
def cancelledForAnother : List (Act LogLevel) :=
  [.subscribe "first" "printer" "LogEvent" none, .subscribe "second" "printer" "LogEvent" none,
    .unsubscribe "first", .unsubscribe "first", .publish (.log .info "hello")]

/-- The second call removes the other subscription: the event is not delivered although the unsubscribe
function of that one was never called. -/
theorem history_forgets_another :
    ∃ before p, history 1 cancelledForAnother {} = before ++ [.emitted p (.ok ())] ∧
      (Ledger.after {} before).live p.event.topic = [⟨1, .log, "printer"⟩] ∧
      (performAll 1 cancelledForAnother {}).deliveriesAt p.tick = [] :=
  ⟨[.subscribed "first" .log "printer", .subscribed "second" .log "printer", .cancelled "first",
    .cancelled "first"], ⟨0, .log .info "hello"⟩, rfl, by decide, rfl⟩

end Scene

end Polyscan
