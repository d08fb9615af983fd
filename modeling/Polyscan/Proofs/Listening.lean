import Polyscan.Proofs.Conduct
import Polyscan.Proofs.Workspace.Default
import Polyscan.Service.Basic

/-!
Listeners during work of an analyzer. Whatever it lists or runs, it has emitted some events in the end and its
subscriptions are the same. So a listener that subscribed last and never raises has received every event
since, except those on which a listener before it raised; and when it unsubscribes, the subscriptions are
those from before.
-/
namespace Polyscan.Analyzer

open Work

/-! ## What is published meanwhile -/

/-- From `a` to `b` the given events were emitted. The machine, the configuration and the subscriptions are
the same. -/
structure Emits (es : List (Event LogLevel)) (a b : Analyzer) : Prop where
  rest : b = { a with
    clock := b.clock, heard := b.heard, slots := b.slots, ids := b.ids, workspaces := b.workspaces
    expansions := b.expansions, defaultWorkspace := b.defaultWorkspace }
  clock : b.clock = a.clock + es.length
  heard : b.heard = a.heard ++ a.deliveriesOf (stamped a.clock es)

namespace Emits

variable {es fs : List (Event LogLevel)} {a b c : Analyzer}

theorem host (h : Emits es a b) : b.host = a.host := by rw [h.rest]

theorem config (h : Emits es a b) : b.config = a.config := by rw [h.rest]

theorem bus (h : Emits es a b) : b.bus = a.bus := by rw [h.rest]

theorem refusal (h : Emits es a b) : b.refusal = a.refusal := by rw [h.rest]

theorem listeners (h : Emits es a b) : b.listeners = a.listeners := by rw [h.rest]

theorem refusalOf (h : Emits es a b) (p : Published LogLevel) : b.refusalOf p = a.refusalOf p := by
  unfold Analyzer.refusalOf
  rw [h.bus, h.refusal]

theorem takesAt (h : Emits es a b) {p : Published LogLevel} (hp : a.TakesAt p) : b.TakesAt p := by
  rw [← refusalOf_eq_none_iff] at hp ⊢
  rw [h.refusalOf, hp]

theorem takes (h : Emits es a b) {e : Event LogLevel} (he : a.Takes e) : b.Takes e :=
  fun tick => h.takesAt (he tick)

theorem deliveriesOf (h : Emits es a b) (ps : List (Published LogLevel)) :
    b.deliveriesOf ps = a.deliveriesOf ps := by
  rw [h.rest]
  rfl

theorem refl (a : Analyzer) : Emits [] a a where
  rest := rfl
  clock := rfl
  heard := by simp [stamped, Analyzer.deliveriesOf]

theorem trans (h : Emits es a b) (h' : Emits fs b c) : Emits (es ++ fs) a c where
  rest := by
    rw [h'.rest, h.rest]
  clock := by rw [h'.clock, h.clock, List.length_append, Nat.add_assoc]
  heard := by
    rw [h'.heard, h.heard, h.deliveriesOf, h.clock, stamped_append, deliveriesOf_append, List.append_assoc]

end Emits

theorem Asked.emits {es : List (Event LogLevel)} {a b : Analyzer} (h : Asked es a b) : Emits es a b where
  rest := by rw [h.rest]
  clock := h.clock
  heard := h.heard

/-- Where no listener raises, the events of a course are all delivered. -/
theorem Course.emits {o : RunOptions} {es : List (Event LogLevel)} {ss : Starts} {a b : Analyzer}
    (h : Course o es ss a b) (hquiet : a.TakesAll es) : Emits es a b where
  rest := by rw [h.rest]
  clock := h.clock
  heard := by rw [h.heard, deliveriesOf_takesAll hquiet]

/-- The law that events may be emitted, and subscriptions stay the same. -/
def emitting : Law Analyzer where
  keeps a b := ∃ es, Emits es a b
  refl a := ⟨[], .refl a⟩
  trans := by
    rintro a b c ⟨es, hes⟩ ⟨fs, hfs⟩
    exact ⟨es ++ fs, hes.trans hfs⟩

theorem emitting_emit (e : Event LogLevel) (a : Analyzer) : emitting.keeps a (emit e a).2 := by
  refine ⟨[e], ?_⟩
  rw [emit_eq]
  exact ⟨rfl, rfl, rfl⟩

/-- A change of neither the clock nor the deliveries is no publication. -/
theorem Emits.still {a b : Analyzer} (hrest : b = { a with
    slots := b.slots, ids := b.ids, workspaces := b.workspaces, expansions := b.expansions
    defaultWorkspace := b.defaultWorkspace }) : Emits [] a b where
  rest := by rw [hrest]
  clock := by
    rw [hrest]
    rfl
  heard := by
    rw [hrest]
    exact (Emits.refl a).heard

theorem allowsListing_emitting : AllowsListing emitting where
  emit := emitting_emit
  asked _ _ _ := ⟨[], .still rfl⟩

theorem allowsRun_emitting (o : RunOptions) : AllowsRun emitting o where
  emit := emitting_emit
  files _ _ := ⟨[], .still rfl⟩
  started _ _ _ := ⟨[], .still rfl⟩

theorem emits_createWorkspace (paths : List String) (a : Analyzer) :
    Emits [] a (createWorkspace paths a).2 := by
  unfold createWorkspace
  dsimp only
  split
  · exact .still rfl
  · exact .still rfl

theorem abides_createWorkspace (paths : List String) : emitting.Abides (Work.now (createWorkspace paths)) :=
  .now fun a => ⟨[], emits_createWorkspace paths a⟩

theorem emits_workspaceHere (a : Analyzer) : Emits [] a (workspaceHere a).2 := by
  rcases a.defaultWorkspace.held_or_not a.host.cwdPath with ⟨w, hheld⟩ | hnone
  · rw [workspaceHere_of_held hheld]
    exact .refl a
  · rw [workspaceHere_of_not_held hnone]
    exact (emits_createWorkspace _ a).trans (.still rfl)

theorem abides_workspaceOr (choice : Option Workspace) : emitting.Abides (workspaceOr choice) := by
  cases choice with
  | some w => exact .pure w
  | none => exact .now fun a => ⟨[], emits_workspaceHere a⟩

/-! ## The last listener -/

/-- The analyzer with one more listener, to all topics, which never raises. -/
def attended (a : Analyzer) : Analyzer := (a.listen Topic.all fun _ => none).2

/-- Listeners have numbers below the one that the next listener gets. -/
structure Numbered (a : Analyzer) : Prop where
  subscribed : ∀ x ∈ a.bus.subscriptions, x.2 < a.listeners
  heard : ∀ x ∈ a.heard, x.1 < a.listeners

/-- The last listener is subscribed to all topics and never raises. -/
structure Attends (a : Analyzer) (others : Bus Nat) (k : Nat) : Prop where
  bus : a.bus = ⟨others.subscriptions ++ Topic.all.map fun t => (t, k)⟩
  own : ∀ x ∈ others.subscriptions, x.2 ≠ k
  takes : ∀ p, a.refusal k p = none

section

variable {a b : Analyzer} {others : Bus Nat} {k : Nat} {es : List (Event LogLevel)}

theorem subscribe_all (topics : List Topic) (b : Bus Nat) (k : Nat) :
    topics.foldl (fun b t => b.subscribe t k) b = ⟨b.subscriptions ++ topics.map fun t => (t, k)⟩ := by
  induction topics generalizing b with
  | nil => simp
  | cons t rest ih =>
    rw [List.foldl_cons, ih]
    simp [Bus.subscribe]

theorem unsubscribe_all {others : List (Topic × Nat)} (hown : ∀ x ∈ others, x.2 ≠ k) (topics : List Topic) :
    topics.foldl (fun b t => b.unsubscribe t k) (⟨others ++ topics.map fun t => (t, k)⟩ : Bus Nat) =
      ⟨others⟩ := by
  induction topics with
  | nil => simp
  | cons t rest ih =>
    have hfirst : (others ++ (t :: rest).map fun t => (t, k)).erase (t, k) =
        others ++ rest.map fun t => (t, k) := by
      rw [List.erase_append_right _ fun hmem => hown _ hmem rfl, List.map_cons, List.erase_cons_head]
    rw [List.foldl_cons, Bus.unsubscribe, hfirst, ih]

theorem Numbered.attends (h : a.Numbered) : a.attended.Attends a.bus a.listeners where
  bus := subscribe_all Topic.all a.bus a.listeners
  own x hx := Nat.ne_of_lt (h.subscribed x hx)
  takes p := by simp [attended, listen]

theorem Numbered.heardBy_attended (h : a.Numbered) : a.attended.heardBy a.listeners = [] := by
  show (a.heard.filter fun e => e.1 = a.listeners).map Prod.snd = []
  rw [List.filter_eq_nil_iff.mpr]
  · rfl
  · intro x hx
    simpa using Nat.ne_of_lt (h.heard x hx)

namespace Attends

variable (h : a.Attends others k)

include h

theorem of_emits (ht : Emits es a b) : b.Attends others k where
  bus := ht.bus.trans h.bus
  own := h.own
  takes := by rw [ht.refusal]; exact h.takes

/-- Unsubscribing the listener leaves the subscriptions of the others. -/
theorem dismiss : (a.dismiss Topic.all k).bus = others := by
  unfold Analyzer.dismiss
  rw [h.bus]
  exact unsubscribe_all h.own Topic.all

theorem audience (t : Topic) : a.bus.audience t = others.audience t ++ [k] := by
  rw [h.bus]
  cases t <;> simp [Bus.audience, Topic.all]

/-- The listener never raises, so unsubscribing it changes no fault. -/
theorem refusalOf_dismiss (p : Published LogLevel) :
    (a.dismiss Topic.all k).refusalOf p = a.refusalOf p := by
  show ((a.dismiss Topic.all k).bus.audience p.event.topic).findSome? _ = _
  rw [h.dismiss, refusalOf, h.audience, List.findSome?_append, List.findSome?_singleton, h.takes,
    Option.or_none]
  rfl

/-- An event is delivered to the listener once, unless another one raises on it before. -/
theorem receivers (p : Published LogLevel) :
    (a.receivers p).filter (· = k) = if (a.refusalOf p).isNone then [k] else [] := by
  have hothers : ∀ j ∈ others.audience p.event.topic, j ≠ k := by
    intro j hj
    obtain ⟨x, hx, rfl⟩ := List.mem_map.mp hj
    exact h.own x (List.mem_filter.mp hx).1
  have hnone : (others.audience p.event.topic).filter (· = k) = [] := by
    rw [List.filter_eq_nil_iff]
    simpa using hothers
  cases hrefusal : a.refusalOf p with
  | none =>
    rw [receivers_of_takesAt (refusalOf_eq_none_iff.mp hrefusal), h.audience, List.filter_append, hnone]
    simp
  | some f =>
    -- the listener that raises was subscribed before, and delivery stops there
    obtain ⟨j, hj, hjf⟩ := List.exists_of_findSome?_eq_some hrefusal
    rw [h.audience, List.mem_append, List.mem_singleton] at hj
    have hj : j ∈ others.audience p.event.topic := by
      refine hj.resolve_right ?_
      rintro rfl
      rw [h.takes] at hjf
      cases hjf
    have hindex : (others.audience p.event.topic ++ [k]).findIdx (fun k => (a.refusal k p).isSome) <
        (others.audience p.event.topic).length := by
      rw [List.findIdx_append]
      have hlt : (others.audience p.event.topic).findIdx (fun k => (a.refusal k p).isSome) <
          (others.audience p.event.topic).length :=
        List.findIdx_lt_length_of_exists ⟨j, hj, by rw [hjf]; rfl⟩
      rwa [if_pos hlt]
    unfold Analyzer.receivers
    dsimp only
    rw [h.audience, List.take_append_of_le_length hindex, List.filter_eq_nil_iff.mpr]
    · rfl
    · intro i hi
      simpa using hothers i (List.mem_of_mem_take hi)

/-- The listener has received the events that were emitted, except those on which another one raised. -/
theorem heardBy (ht : Emits es a b) :
    b.heardBy k =
      a.heardBy k ++ (stamped a.clock es).filter fun p => (a.refusalOf p).isNone := by
  have hone : ∀ p : Published LogLevel,
      (((a.receivers p).map fun j => (j, p)).filter fun x => x.1 = k).map Prod.snd =
        [p].filter fun p => (a.refusalOf p).isNone := by
    intro p
    have hk : (fun x : Nat × Published LogLevel => decide (x.1 = k)) ∘ (fun j => (j, p)) =
        fun j => decide (j = k) := rfl
    rw [List.filter_map, hk, h.receivers]
    cases hrefusal : (a.refusalOf p).isNone <;> simp [hrefusal]
  have hall : ∀ ps : List (Published LogLevel),
      ((a.deliveriesOf ps).filter fun x => x.1 = k).map Prod.snd =
        ps.filter fun p => (a.refusalOf p).isNone := by
    intro ps
    induction ps with
    | nil => rfl
    | cons p rest ih =>
      rw [← List.singleton_append, deliveriesOf_append, List.filter_append, List.map_append, ih,
        List.filter_append, ← hone p]
      simp [deliveriesOf]
  unfold Analyzer.heardBy
  rw [ht.heard, List.filter_append, List.map_append, hall]

end Attends

theorem mem_bus_of_mem_receivers {p : Published LogLevel} (hk : k ∈ a.receivers p) :
    ∃ x ∈ a.bus.subscriptions, x.2 = k := by
  obtain ⟨x, hx, hxk⟩ := List.mem_map.mp (List.mem_of_mem_take hk)
  exact ⟨x, (List.mem_filter.mp hx).1, hxk⟩

theorem Numbered.of_emits (h : a.Numbered) (ht : Emits es a b) : b.Numbered where
  subscribed := by
    rw [ht.bus, ht.listeners]
    exact h.subscribed
  heard := by
    rw [ht.heard, ht.listeners]
    refine List.forall_mem_append.mpr ⟨h.heard, fun x hx => ?_⟩
    obtain ⟨p, -, hx⟩ := List.mem_flatMap.mp hx
    obtain ⟨k, hk, rfl⟩ := List.mem_map.mp hx
    obtain ⟨y, hy, rfl⟩ := mem_bus_of_mem_receivers hk
    exact h.subscribed y hy

/-- A listener that never raises changes no fault. -/
theorem Numbered.refusalOf_attended (h : a.Numbered) (p : Published LogLevel) :
    a.attended.refusalOf p = a.refusalOf p := by
  have hothers : ∀ j ∈ a.bus.audience p.event.topic, a.attended.refusal j p = a.refusal j p := by
    intro j hj
    obtain ⟨x, hx, rfl⟩ := List.mem_map.mp hj
    have hne : x.2 ≠ a.listeners := Nat.ne_of_lt (h.subscribed x (List.mem_filter.mp hx).1)
    show (if x.2 = a.listeners then _ else _) = _
    rw [if_neg hne]
  unfold refusalOf
  rw [h.attends.audience, List.findSome?_append, List.findSome?_singleton, h.attends.takes,
    Option.or_none]
  exact findSome?_congr hothers

theorem Numbered.attended (h : a.Numbered) : a.attended.Numbered where
  subscribed := by
    rw [h.attends.bus]
    refine List.forall_mem_append.mpr ⟨fun x hx => Nat.lt_succ_of_lt (h.subscribed x hx), fun x hx => ?_⟩
    obtain ⟨t, -, rfl⟩ := List.mem_map.mp hx
    exact Nat.lt_succ_self a.listeners
  heard x hx := Nat.lt_succ_of_lt (h.heard x hx)

theorem Numbered.dismiss (h : a.Numbered) (topics : List Topic) (k : Nat) :
    (a.dismiss topics k).Numbered where
  subscribed := by
    show ∀ x ∈ (topics.foldl (fun b t => b.unsubscribe t k) a.bus).subscriptions, x.2 < a.listeners
    have hbus := h.subscribed
    generalize a.bus = bus at hbus ⊢
    induction topics generalizing bus with
    | nil => exact hbus
    | cons t rest ih => exact ih _ fun x hx => hbus x (List.mem_of_mem_erase hx)
  heard := h.heard

end

end Polyscan.Analyzer

namespace Polyscan.Service

open Work Analyzer

/-- The work of a run emits events and keeps the subscriptions. -/
theorem abides_selectAndRun (q : RunRequest) : emitting.Abides (selectAndRun q) :=
  (abides_createWorkspace q.workspace).bind fun w =>
    (allowsListing_emitting.select (abides_workspaceOr (some w)) q.selectors).bind fun selection =>
      (abides_run allowsRun_emitting selection w q.startPoints).bind fun _ => .pure _

/-- The analyzer of the service may emit events, and the rest of the service stays the same. -/
def emittingService : Law Service :=
  emitting.onPart (fun s : Service => s.analyzer) (fun a s => { s with analyzer := a }) (fun _ _ _ => rfl)
    fun _ => rfl

end Polyscan.Service
