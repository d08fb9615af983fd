import Polyscan.Proofs.OrderedMap
import Polyscan.Proofs.Work
import Polyscan.Plugin.Engine
import Polyscan.Analyzer.Basic

/-!
Publication of events. Each event takes one reading of the clock and is delivered to the listeners to its
topic in the order of their subscriptions. `Course` says how an analyzer changes during a run in which no
listener raises: which events were emitted and which engines were started. Nothing else that a run reads
changes.
-/
namespace Polyscan

/-! ## Events and listeners -/

/-- Events with the readings of a clock that stands at `tick` before the first of them. -/
def stamped (tick : Nat) : List (Event LogLevel) → List (Published LogLevel)
  | [] => []
  | e :: rest => ⟨tick, e⟩ :: stamped (tick + 1) rest

/-- The deliveries of consecutive events, as pairs of listener and event. -/
def Bus.deliveries (b : Bus Nat) (events : List (Published LogLevel)) : List (Nat × Published LogLevel) :=
  events.flatMap fun p => (b.audience p.event.topic).map fun k => (k, p)

theorem stamped_append (tick : Nat) (es fs : List (Event LogLevel)) :
    stamped tick (es ++ fs) = stamped tick es ++ stamped (tick + es.length) fs := by
  induction es generalizing tick with
  | nil => rfl
  | cons e rest ih =>
    rw [List.cons_append, stamped, ih, stamped, List.cons_append, List.length_cons,
      Nat.add_right_comm, Nat.add_assoc]

theorem length_stamped (tick : Nat) (es : List (Event LogLevel)) : (stamped tick es).length = es.length := by
  induction es generalizing tick with
  | nil => rfl
  | cons e rest ih => rw [stamped, List.length_cons, List.length_cons, ih]

theorem map_event_stamped (tick : Nat) (es : List (Event LogLevel)) :
    (stamped tick es).map Published.event = es := by
  induction es generalizing tick with
  | nil => rfl
  | cons e rest ih => rw [stamped, List.map_cons, ih]

/-- The readings of stamped events are not before the first one. -/
theorem le_tick_of_mem_stamped {tick : Nat} {es : List (Event LogLevel)} {p : Published LogLevel}
    (h : p ∈ stamped tick es) : tick ≤ p.tick := by
  induction es generalizing tick with
  | nil => cases h
  | cons e rest ih =>
    rcases List.mem_cons.mp h with rfl | h
    · exact Nat.le_refl _
    · exact Nat.le_of_succ_le (ih h)

theorem take_stamped (tick n : Nat) (es : List (Event LogLevel)) :
    (stamped tick es).take n = stamped tick (es.take n) := by
  induction es generalizing tick n with
  | nil => simp [stamped]
  | cons e rest ih =>
    cases n with
    | zero => rfl
    | succ n => rw [stamped, List.take_succ_cons, ih, List.take_succ_cons, stamped]

namespace Analyzer

/-- No listener raises on a published event. -/
def TakesAt (a : Analyzer) (p : Published LogLevel) : Prop :=
  ∀ k ∈ a.bus.audience p.event.topic, a.refusal k p = none

/-- No listener raises on an event if it is emitted next. -/
def TakesNow (a : Analyzer) (e : Event LogLevel) : Prop := a.TakesAt ⟨a.clock, e⟩

/-- No listener raises on an event, whatever its reading of the clock. -/
def Takes (a : Analyzer) (e : Event LogLevel) : Prop := ∀ tick, a.TakesAt ⟨tick, e⟩

/-- No listener raises on any of the events, whatever their readings of the clock. -/
def TakesAll (a : Analyzer) (es : List (Event LogLevel)) : Prop := ∀ e ∈ es, a.Takes e

theorem TakesAll.left {a : Analyzer} {es fs : List (Event LogLevel)} (h : a.TakesAll (es ++ fs)) :
    a.TakesAll es :=
  fun e he => h e (List.mem_append_left fs he)

theorem TakesAll.right {a : Analyzer} {es fs : List (Event LogLevel)} (h : a.TakesAll (es ++ fs)) :
    a.TakesAll fs :=
  fun e he => h e (List.mem_append_right es he)

theorem TakesAll.head {a : Analyzer} {e : Event LogLevel} {es : List (Event LogLevel)}
    (h : a.TakesAll (e :: es)) : a.Takes e :=
  h e List.mem_cons_self

theorem TakesAll.tail {a : Analyzer} {e : Event LogLevel} {es : List (Event LogLevel)}
    (h : a.TakesAll (e :: es)) : a.TakesAll es :=
  fun f hf => h f (List.mem_cons_of_mem _ hf)

theorem TakesAll.takesAt {a : Analyzer} {es : List (Event LogLevel)} (h : a.TakesAll es) {tick : Nat}
    {p : Published LogLevel} (hp : p ∈ stamped tick es) : a.TakesAt p :=
  h p.event (map_event_stamped tick es ▸ List.mem_map_of_mem hp) p.tick

/-! ## What happens in a run -/

/-- The files of a workspace: the stored expansion, or what the expansion would be now. -/
def filesOf (a : Analyzer) (w : Workspace) : List String :=
  ((expansion w.key).look a).value.getD (Workspace.expand a.host w.inputs)

end Analyzer

/-- The slot after its engine was started with the given rule names and options. The bundled engine keeps no
record of this. -/
def Slot.asked (calls : List (List String × RunOptions)) (s : Slot) : Slot :=
  match s.engine with
  | .external _ => { s with runs := s.runs ++ calls }
  | .patterns _ => s

theorem Slot.asked_nil (s : Slot) : s.asked [] = s := by
  unfold asked
  split
  · rw [List.append_nil]
  · rfl

theorem Slot.asked_append (calls more : List (List String × RunOptions)) (s : Slot) :
    s.asked (calls ++ more) = (s.asked calls).asked more := by
  unfold asked
  cases h : s.engine with
  | patterns rules => simp [h]
  | external e => simp

@[simp] theorem Slot.asked_engine (calls : List (List String × RunOptions)) (s : Slot) :
    (s.asked calls).engine = s.engine := by
  unfold asked
  split <;> rfl

@[simp] theorem Slot.asked_logForwards (calls : List (List String × RunOptions)) (s : Slot) :
    (s.asked calls).logForwards = s.logForwards := by
  unfold asked
  split <;> rfl

@[simp] theorem Slot.asked_progressForwards (calls : List (List String × RunOptions)) (s : Slot) :
    (s.asked calls).progressForwards = s.progressForwards := by
  unfold asked
  split <;> rfl

/-- Engines that were started, each with the names of its rules. -/
abbrev Starts := List (String × List String)

/-- How one engine was started. -/
def Starts.callsOf (starts : Starts) (o : RunOptions) (engine : String) :
    List (List String × RunOptions) :=
  (starts.filter fun s => s.1 = engine).map fun s => (s.2, o)

theorem Starts.callsOf_append (ss ts : Starts) (o : RunOptions) (engine : String) :
    Starts.callsOf (ss ++ ts) o engine = ss.callsOf o engine ++ ts.callsOf o engine := by
  simp [callsOf]

namespace Analyzer

/-- From `a` to `b` the given events were emitted and the given engines were started. -/
structure Course (o : RunOptions) (events : List (Event LogLevel)) (starts : Starts)
    (a b : Analyzer) : Prop where
  rest : b = { a with clock := b.clock, heard := b.heard, slots := b.slots, expansions := b.expansions }
  clock : b.clock = a.clock + events.length
  heard : b.heard = a.heard ++ a.bus.deliveries (stamped a.clock events)
  names : b.engineNames = a.engineNames
  slots : ∀ engine, b.slots.get? engine =
    (a.slots.get? engine).map (Slot.asked (starts.callsOf o engine))
  files : b.filesOf o.workspace = a.filesOf o.workspace

/-- The slot of an engine later in a run. -/
theorem Course.slot_of {o : RunOptions} {es : List (Event LogLevel)} {ss : Starts} {a b : Analyzer}
    (h : Course o es ss a b) {engine : String} {s : Slot} (hs : a.slots.get? engine = some s) :
    b.slots.get? engine = some (s.asked (ss.callsOf o engine)) := by
  rw [h.slots, hs]
  rfl

end Analyzer

end Polyscan
