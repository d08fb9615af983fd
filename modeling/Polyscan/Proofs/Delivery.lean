import Polyscan.Proofs.Publication

/-!
Delivery under any listeners. `emit` delivers an event to the listeners to its topic up to the first that
raises, and its outcome is that fault. Of consecutive events, those up to the first fault are emitted.
-/
namespace Polyscan

/-- `findSome?` depends on the values at the members of the list only. -/
theorem findSome?_congr {α β : Type} {l : List α} {f g : α → Option β} (h : ∀ x ∈ l, f x = g x) :
    l.findSome? f = l.findSome? g := by
  induction l with
  | nil => rfl
  | cons x rest ih =>
    rw [List.findSome?_cons, List.findSome?_cons, h x List.mem_cons_self,
      ih fun y hy => h y (List.mem_cons_of_mem x hy)]

namespace Analyzer

/-! ## One event -/

/-- The fault of the first listener that raises on a published event. -/
def refusalOf (a : Analyzer) (p : Published LogLevel) : Option Fault :=
  (a.bus.audience p.event.topic).findSome? fun k => a.refusal k p

/-- The listeners to which a published event is delivered: those up to the first that raises. -/
def receivers (a : Analyzer) (p : Published LogLevel) : List Nat :=
  let audience := a.bus.audience p.event.topic
  audience.take (audience.findIdx (fun k => (a.refusal k p).isSome) + 1)

/-- The outcome of an effect without a result, by its fault. -/
def outcomeOf : Option Fault → Except Fault Unit
  | none => .ok ()
  | some f => .error f

/-- The deliveries of published events, as pairs of listener and event. -/
def deliveriesOf (a : Analyzer) (ps : List (Published LogLevel)) : List (Nat × Published LogLevel) :=
  ps.flatMap fun p => (a.receivers p).map fun k => (k, p)

theorem refusalOf_eq_none_iff {a : Analyzer} {p : Published LogLevel} : a.refusalOf p = none ↔ a.TakesAt p :=
  List.findSome?_eq_none_iff

theorem receivers_of_takesAt {a : Analyzer} {p : Published LogLevel} (h : a.TakesAt p) :
    a.receivers p = a.bus.audience p.event.topic := by
  have hfirst : (a.bus.audience p.event.topic).findIdx (fun k => (a.refusal k p).isSome) =
      (a.bus.audience p.event.topic).length := by
    rw [List.findIdx_eq_length]
    intro k hk
    rw [h k hk]
    rfl
  unfold receivers
  simp only [hfirst]
  exact List.take_of_length_le (Nat.le_succ _)

theorem deliveriesOf_append (a : Analyzer) (ps qs : List (Published LogLevel)) :
    a.deliveriesOf (ps ++ qs) = a.deliveriesOf ps ++ a.deliveriesOf qs :=
  List.flatMap_append

/-- If no listener raises, every event is delivered to all listeners to its topic. -/
theorem deliveriesOf_takesAt {a : Analyzer} {ps : List (Published LogLevel)} (h : ∀ p ∈ ps, a.TakesAt p) :
    a.deliveriesOf ps = a.bus.deliveries ps :=
  List.flatMap_congr fun p hp => by rw [receivers_of_takesAt (h p hp)]

theorem deliveriesOf_takesAll {a : Analyzer} {es : List (Event LogLevel)} (h : a.TakesAll es)
    (tick : Nat) : a.deliveriesOf (stamped tick es) = a.bus.deliveries (stamped tick es) :=
  deliveriesOf_takesAt fun _ hp => h.takesAt hp

theorem deliverAll_eq (p : Published LogLevel) (ks : List Nat) (a : Analyzer) :
    deliverAll p ks a =
      (outcomeOf (ks.findSome? fun k => a.refusal k p),
        { a with heard := a.heard ++
            (ks.take (ks.findIdx (fun k => (a.refusal k p).isSome) + 1)).map fun k => (k, p) }) := by
  induction ks generalizing a with
  | nil => simp [deliverAll, outcomeOf]
  | cons k rest ih =>
    cases hk : a.refusal k p with
    | some f => simp [deliverAll, hk, outcomeOf, List.findIdx_cons]
    | none =>
      simp only [deliverAll, hk]
      rw [ih { a with heard := a.heard ++ [(k, p)] }]
      simp [hk, List.findIdx_cons]

/-- `emit` under any listeners. -/
theorem emit_eq (e : Event LogLevel) (a : Analyzer) :
    emit e a =
      (outcomeOf (a.refusalOf ⟨a.clock, e⟩), { a with
        clock := a.clock + 1
        heard := a.heard ++ a.deliveriesOf (stamped a.clock [e]) }) := by
  have hemitted := deliverAll_eq ⟨a.clock, e⟩ (a.bus.audience e.topic) { a with clock := a.clock + 1 }
  simpa [emit, stamped, deliveriesOf, receivers, refusalOf] using hemitted

/-! ## Several events -/

/-- Emits events one after another, up to the first fault. -/
def emitAll : List (Event LogLevel) → Effect Analyzer Unit
  | [] => pure ()
  | e :: rest => do
    emit e
    emitAll rest

/-- The first fault of a listener on published events. -/
def firstRefusal (a : Analyzer) (ps : List (Published LogLevel)) : Option Fault := ps.findSome? a.refusalOf

/-- The number of events that are emitted from a reading of the clock on: those up to the first fault. -/
def reach (a : Analyzer) (tick : Nat) (es : List (Event LogLevel)) : Nat :=
  (stamped tick es).findIdx (fun p => (a.refusalOf p).isSome) + 1

/-- The events that are emitted from a reading of the clock on. -/
def published (a : Analyzer) (tick : Nat) (es : List (Event LogLevel)) : List (Event LogLevel) :=
  es.take (a.reach tick es)

theorem firstRefusal_eq_none_iff {a : Analyzer} {ps : List (Published LogLevel)} :
    a.firstRefusal ps = none ↔ ∀ p ∈ ps, a.TakesAt p := by
  unfold firstRefusal
  rw [List.findSome?_eq_none_iff]
  exact forall₂_congr fun p _ => refusalOf_eq_none_iff

theorem firstRefusal_of_takesAll {a : Analyzer} {es : List (Event LogLevel)} (h : a.TakesAll es) (tick : Nat) :
    a.firstRefusal (stamped tick es) = none :=
  firstRefusal_eq_none_iff.mpr fun _ hp => h.takesAt hp

theorem published_of_firstRefusal {a : Analyzer} {tick : Nat} {es : List (Event LogLevel)}
    (h : a.firstRefusal (stamped tick es) = none) : a.published tick es = es := by
  have hnone : (stamped tick es).findIdx (fun p => (a.refusalOf p).isSome) = es.length := by
    rw [← length_stamped tick es, List.findIdx_eq_length]
    intro p hp
    rw [refusalOf_eq_none_iff.mpr (firstRefusal_eq_none_iff.mp h p hp)]
    rfl
  rw [published, reach, hnone]
  exact List.take_of_length_le (Nat.le_succ _)

theorem published_of_takesAll {a : Analyzer} {es : List (Event LogLevel)} (h : a.TakesAll es) (tick : Nat) :
    a.published tick es = es :=
  published_of_firstRefusal (firstRefusal_of_takesAll h tick)

section

variable {a : Analyzer} {tick : Nat} {e : Event LogLevel}

theorem published_cons_of_some {f : Fault} (he : a.refusalOf ⟨tick, e⟩ = some f)
    (es : List (Event LogLevel)) :
    a.published tick (e :: es) = [e] ∧ a.firstRefusal (stamped tick (e :: es)) = some f := by
  simp [published, reach, firstRefusal, stamped, List.findIdx_cons, he]

theorem published_cons_of_none (he : a.refusalOf ⟨tick, e⟩ = none) (es : List (Event LogLevel)) :
    a.published tick (e :: es) = e :: a.published (tick + 1) es ∧
      a.firstRefusal (stamped tick (e :: es)) = a.firstRefusal (stamped (tick + 1) es) := by
  simp [published, reach, firstRefusal, stamped, List.findIdx_cons, he]

end

/-- Either no listener raises and all events are emitted, or they are emitted up to the first fault. -/
theorem published_cases (a : Analyzer) (tick : Nat) (es : List (Event LogLevel)) :
    (a.firstRefusal (stamped tick es) = none ∧ a.published tick es = es) ∨
      ∃ quiet m rest f, es = quiet ++ m :: rest ∧ a.firstRefusal (stamped tick quiet) = none ∧
        a.refusalOf ⟨tick + quiet.length, m⟩ = some f ∧ a.published tick es = quiet ++ [m] ∧
        a.firstRefusal (stamped tick es) = some f := by
  induction es generalizing tick with
  | nil => exact .inl ⟨rfl, rfl⟩
  | cons e rest ih =>
    cases he : a.refusalOf ⟨tick, e⟩ with
    | some f =>
      obtain ⟨hpublished, hfirst⟩ := published_cons_of_some he rest
      exact .inr ⟨[], e, rest, f, rfl, rfl, he, hpublished, hfirst⟩
    | none =>
      have hstep : ∀ es, a.published tick (e :: es) = e :: a.published (tick + 1) es ∧
          a.firstRefusal (stamped tick (e :: es)) = a.firstRefusal (stamped (tick + 1) es) :=
        published_cons_of_none he
      rw [(hstep rest).1, (hstep rest).2]
      rcases ih (tick + 1) with ⟨hall, hsame⟩ | ⟨quiet, m, after, f, rfl, hquiet, hm, hsame, hrefusal⟩
      · exact .inl ⟨hall, by rw [hsame]⟩
      · refine .inr ⟨e :: quiet, m, after, f, rfl, (hstep quiet).2.trans hquiet, ?_, by rw [hsame]; rfl, hrefusal⟩
        rwa [List.length_cons, Nat.add_comm quiet.length, ← Nat.add_assoc]

/-- `emitAll` under any listeners. -/
theorem emitAll_eq (es : List (Event LogLevel)) (a : Analyzer) :
    emitAll es a =
      (outcomeOf (a.firstRefusal (stamped a.clock es)), { a with
        clock := a.clock + (a.published a.clock es).length
        heard := a.heard ++ a.deliveriesOf (stamped a.clock (a.published a.clock es)) }) := by
  induction es generalizing a with
  | nil =>
    show (Except.ok (), a) = _
    simp [firstRefusal, published, outcomeOf, stamped, deliveriesOf]
  | cons e rest ih =>
    show (emit e >>= fun _ => emitAll rest) a = _
    rw [Work.effect_bind, emit_eq]
    cases he : a.refusalOf ⟨a.clock, e⟩ with
    | some f =>
      obtain ⟨hpublished, hfirst⟩ := published_cons_of_some he rest
      rw [hpublished, hfirst]
      rfl
    | none =>
      -- the rest is emitted in the state after the first event, which has the same listeners
      obtain ⟨hpublished, hfirst⟩ := published_cons_of_none he rest
      have hrest := ih { a with
        clock := a.clock + 1
        heard := a.heard ++ a.deliveriesOf (stamped a.clock [e]) }
      show emitAll rest _ = _
      rw [hrest, hpublished, hfirst]
      simp only [List.length_cons, stamped]
      simp only [deliveriesOf, List.flatMap_cons, List.flatMap_nil, List.append_nil, List.append_assoc]
      rw [Nat.add_assoc, Nat.add_comm 1]
      rfl

end Analyzer

end Polyscan
