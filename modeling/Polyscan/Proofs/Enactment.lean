import Polyscan.Proofs.Delivery

/-!
Work that follows a script, under any listeners. A script lists the events that are emitted, with their
readings of the clock, and the engines that are started. A fault of a listener ends the work there: `Enacts`
says that work goes through its script up to the first such fault, and comes to its result if there is none.
Where work is attempted the fault is part of its result instead, so in the script of the whole its events can
no longer end the script.
-/
namespace Polyscan

/-- A step of a run. -/
inductive Cue where
  /-- An event is emitted; a fault of a listener ends the run. -/
  | emits (p : Published LogLevel)
  /-- An event is emitted for an engine; a fault of a listener ends the run of that engine. -/
  | passes (p : Published LogLevel)
  /-- An engine is started with the names of its rules. -/
  | starts (engine : String) (names : List String)

namespace Cue

def event? : Cue → Option (Published LogLevel)
  | emits p => some p
  | passes p => some p
  | starts .. => none

def start? : Cue → Option (String × List String)
  | starts engine names => some (engine, names)
  | _ => none

/-- The fault of a listener that ends a run at a cue. -/
def stop? (a : Analyzer) : Cue → Option Fault
  | emits p => a.refusalOf p
  | _ => none

/-- The same cue where a fault does not end the run. -/
def absorbed : Cue → Cue
  | emits p => passes p
  | c => c

/-- The events that are emitted in a script. -/
def emitted (cues : List Cue) : List (Published LogLevel) := cues.filterMap event?

/-- The engines that are started in a script. -/
def launches (cues : List Cue) : Starts := cues.filterMap start?

theorem emitted_append (xs ys : List Cue) : emitted (xs ++ ys) = emitted xs ++ emitted ys := List.filterMap_append

theorem launches_append (xs ys : List Cue) : launches (xs ++ ys) = launches xs ++ launches ys :=
  List.filterMap_append

@[simp] theorem emitted_emits (ps : List (Published LogLevel)) : emitted (ps.map emits) = ps := by
  rw [emitted, List.filterMap_map]
  exact List.filterMap_some

@[simp] theorem emitted_passes (ps : List (Published LogLevel)) : emitted (ps.map passes) = ps := by
  rw [emitted, List.filterMap_map]
  exact List.filterMap_some

@[simp] theorem launches_emits (ps : List (Published LogLevel)) : launches (ps.map emits) = [] := by
  rw [launches, List.filterMap_map]
  exact List.filterMap_eq_nil_iff.mpr fun _ _ => rfl

@[simp] theorem launches_passes (ps : List (Published LogLevel)) : launches (ps.map passes) = [] := by
  rw [launches, List.filterMap_map]
  exact List.filterMap_eq_nil_iff.mpr fun _ _ => rfl

@[simp] theorem emitted_absorbed (cues : List Cue) : emitted (cues.map absorbed) = emitted cues := by
  rw [emitted, List.filterMap_map, emitted]
  congr 1
  funext c
  cases c <;> rfl

@[simp] theorem launches_absorbed (cues : List Cue) : launches (cues.map absorbed) = launches cues := by
  rw [launches, List.filterMap_map, launches]
  congr 1
  funext c
  cases c <;> rfl

end Cue

namespace Analyzer

variable {a b c : Analyzer} {xs ys : List Cue} {o : RunOptions}

/-! ## Scripts that are cut short -/

/-- The first fault that ends a script. -/
def stop (a : Analyzer) (cues : List Cue) : Option Fault := cues.findSome? (Cue.stop? a)

/-- The cues up to the first that ends the script. -/
def played (a : Analyzer) (cues : List Cue) : List Cue :=
  cues.take (cues.findIdx (fun c => (c.stop? a).isSome) + 1)

theorem stop_append (a : Analyzer) (xs ys : List Cue) : a.stop (xs ++ ys) = (a.stop xs).or (a.stop ys) :=
  List.findSome?_append

theorem stop_eq_none_iff : a.stop xs = none ↔ ∀ p, .emits p ∈ xs → a.TakesAt p := by
  rw [stop, List.findSome?_eq_none_iff]
  constructor
  · intro h p hp
    exact refusalOf_eq_none_iff.mp (h _ hp)
  · intro h c hc
    cases c with
    | emits p => exact refusalOf_eq_none_iff.mpr (h p hc)
    | _ => rfl

theorem findIdx_of_none (h : a.stop xs = none) :
    xs.findIdx (fun c => (c.stop? a).isSome) = xs.length := by
  rw [List.findIdx_eq_length]
  intro c hc
  rw [List.findSome?_eq_none_iff.mp h c hc]
  rfl

theorem played_of_none (h : a.stop xs = none) : a.played xs = xs := by
  rw [played, findIdx_of_none h]
  exact List.take_of_length_le (Nat.le_succ _)

theorem played_append_of_some {f : Fault} (h : a.stop xs = some f) (ys : List Cue) :
    a.played (xs ++ ys) = a.played xs := by
  obtain ⟨c, hc, hstop⟩ := List.exists_of_findSome?_eq_some h
  have hlt : xs.findIdx (fun c => (c.stop? a).isSome) < xs.length :=
    List.findIdx_lt_length_of_exists ⟨c, hc, by rw [hstop]; rfl⟩
  rw [played, played, List.findIdx_append, if_pos hlt, List.take_append_of_le_length hlt]

theorem played_append_of_none (h : a.stop xs = none) (ys : List Cue) :
    a.played (xs ++ ys) = xs ++ a.played ys := by
  have hlength := findIdx_of_none h
  rw [played, played, List.findIdx_append, if_neg (by omega), Nat.add_right_comm, Nat.add_comm,
    List.take_length_add_append]

/-- A script ends with the first event on which a listener raises. -/
theorem played_of_split {before : List Cue} (after : List Cue) {p : Published LogLevel} {f : Fault}
    (hbefore : ∀ p, .emits p ∈ before → a.TakesAt p) (hf : a.refusalOf p = some f) :
    a.stop (before ++ .emits p :: after) = some f ∧
      a.played (before ++ .emits p :: after) = before ++ [.emits p] := by
  have hnone := stop_eq_none_iff.mpr hbefore
  have hlast : Cue.stop? a (.emits p) = some f := hf
  refine ⟨by rw [stop_append, hnone, Option.none_or, stop, List.findSome?_cons, hlast], ?_⟩
  rw [played_append_of_none hnone, played, List.findIdx_cons, hlast]
  rfl

/-- Of consecutive events of the analyzer, those up to the first fault are emitted. -/
theorem played_emits (a : Analyzer) (tick : Nat) (es : List (Event LogLevel)) :
    a.played ((stamped tick es).map .emits) = (stamped tick (a.published tick es)).map .emits := by
  rw [played, published, ← take_stamped, reach, List.findIdx_map, List.map_take]
  rfl

theorem stop_emits (a : Analyzer) (ps : List (Published LogLevel)) :
    a.stop (ps.map .emits) = a.firstRefusal ps := by
  rw [stop, firstRefusal, List.findSome?_map]
  rfl

/-! ## Between two moments -/

/-- From `a` to `b` the events of the cues were emitted at their readings and the engines were started.
Nothing else that a run reads has changed. -/
structure Passage (o : RunOptions) (cues : List Cue) (a b : Analyzer) : Prop where
  rest : b = { a with clock := b.clock, heard := b.heard, slots := b.slots, expansions := b.expansions }
  clock : b.clock = a.clock + (Cue.emitted cues).length
  stamps : Cue.emitted cues = stamped a.clock ((Cue.emitted cues).map Published.event)
  heard : b.heard = a.heard ++ a.deliveriesOf (Cue.emitted cues)
  names : b.engineNames = a.engineNames
  slots : ∀ engine, b.slots.get? engine =
    (a.slots.get? engine).map (Slot.asked ((Cue.launches cues).callsOf o engine))
  files : b.filesOf o.workspace = a.filesOf o.workspace

namespace Passage

theorem host (h : Passage o xs a b) : b.host = a.host := by rw [h.rest]

theorem bus (h : Passage o xs a b) : b.bus = a.bus := by rw [h.rest]

theorem refusal (h : Passage o xs a b) : b.refusal = a.refusal := by rw [h.rest]

theorem refusalOf (h : Passage o xs a b) (p : Published LogLevel) : b.refusalOf p = a.refusalOf p := by
  unfold Analyzer.refusalOf
  rw [h.bus, h.refusal]

theorem stop?_eq (h : Passage o xs a b) : Cue.stop? b = Cue.stop? a := by
  funext c
  cases c with
  | emits p => exact h.refusalOf p
  | _ => rfl

theorem stop_eq (h : Passage o xs a b) (cues : List Cue) : b.stop cues = a.stop cues := by
  rw [stop, h.stop?_eq, stop]

theorem played_eq (h : Passage o xs a b) (cues : List Cue) : b.played cues = a.played cues := by
  rw [played, h.stop?_eq, played]

theorem refl (o : RunOptions) (a : Analyzer) : Passage o [] a a where
  rest := rfl
  clock := rfl
  stamps := rfl
  heard := (List.append_nil _).symm
  names := rfl
  slots engine := by
    cases a.slots.get? engine with
    | none => rfl
    | some s => exact congrArg some (Slot.asked_nil s).symm
  files := rfl

theorem trans (h : Passage o xs a b) (h' : Passage o ys b c) : Passage o (xs ++ ys) a c where
  rest := by rw [h'.rest, h.rest]
  clock := by rw [h'.clock, h.clock, Cue.emitted_append, List.length_append, Nat.add_assoc]
  stamps := by
    rw [Cue.emitted_append, List.map_append, stamped_append, ← h.stamps, List.length_map, ← h.clock, ← h'.stamps]
  heard := by
    have hdeliveries : ∀ ps, b.deliveriesOf ps = a.deliveriesOf ps := by
      intro ps
      unfold deliveriesOf receivers
      rw [h.bus, h.refusal]
    rw [h'.heard, h.heard, hdeliveries, Cue.emitted_append, deliveriesOf_append, List.append_assoc]
  names := h'.names.trans h.names
  slots engine := by
    rw [h'.slots, h.slots, Option.map_map, Cue.launches_append, Starts.callsOf_append]
    congr 1
    funext s
    exact (Slot.asked_append _ _ s).symm
  files := h'.files.trans h.files

/-- Only the events and starts of a script matter, not which of its faults would end it. -/
theorem congr (h : Passage o xs a b) (hemitted : Cue.emitted ys = Cue.emitted xs)
    (hlaunches : Cue.launches ys = Cue.launches xs) : Passage o ys a b where
  rest := h.rest
  clock := hemitted ▸ h.clock
  stamps := hemitted ▸ h.stamps
  heard := hemitted ▸ h.heard
  names := h.names
  slots := hlaunches ▸ h.slots
  files := h.files

/-- Where no listener raises, a passage is a course of events. -/
theorem course {es : List (Event LogLevel)} (h : Passage o xs a b) (hemitted : Cue.emitted xs = stamped a.clock es)
    (hquiet : a.TakesAll es) : Course o es (Cue.launches xs) a b where
  rest := h.rest
  clock := by rw [h.clock, hemitted, length_stamped]
  heard := by rw [h.heard, hemitted, deliveriesOf_takesAll hquiet]
  names := h.names
  slots := h.slots
  files := h.files

/-- The slot of an engine later in a run. -/
theorem slot_of (h : Passage o xs a b) {engine : String} {s : Slot} (hs : a.slots.get? engine = some s) :
    b.slots.get? engine = some (s.asked ((Cue.launches xs).callsOf o engine)) := by
  rw [h.slots, hs]
  rfl

/-- The clock advances by one for each event. -/
theorem clock_emits {tick : Nat} {es : List (Event LogLevel)}
    (h : Passage o ((stamped tick es).map .emits) a b) : b.clock = a.clock + es.length := by
  rw [h.clock, Cue.emitted_emits, length_stamped]

/-- If no engine is started, the slots stay the same. -/
theorem slot_eq (h : Passage o xs a b) (hnone : Cue.launches xs = []) (engine : String) :
    b.slots.get? engine = a.slots.get? engine := by
  rw [h.slots, hnone]
  cases a.slots.get? engine with
  | none => rfl
  | some s => exact congrArg some (Slot.asked_nil s)

theorem slot_same (h : Passage o xs a b) (hnone : Cue.launches xs = []) {engine : String} {s : Slot}
    (hs : a.slots.get? engine = some s) : b.slots.get? engine = some s :=
  (h.slot_eq hnone engine).trans hs

end Passage

/-! ## Work that follows a script -/

/-- The result of work, or the fault that ended it before. -/
def reply {α : Type} (stop : Option Fault) (r : Except Fault α) : Except Fault α :=
  match stop with
  | some f => .error f
  | none => r

/-- Work that runs alone goes through a script, and comes to a result unless a fault ends it before. -/
def Enacts {α : Type} (o : RunOptions) (w : Work Analyzer α) (a : Analyzer) (r : Except Fault α)
    (cues : List Cue) : Prop :=
  ∃ b, w.drive a = (reply (a.stop cues) r, b) ∧ Passage o (a.played cues) a b

namespace Enacts

variable {α β : Type} {w : Work Analyzer α} {f : α → Work Analyzer β}

/-- An effect that leaves the analyzer unchanged has the empty script. -/
theorem still {e : Effect Analyzer α} {r : Except Fault α} (h : e a = (r, a)) :
    Enacts o (Work.now e) a r [] :=
  ⟨a, h, .refl o a⟩

theorem pure (x : α) : Enacts o (Pure.pure x : Work Analyzer α) a (.ok x) [] := ⟨a, rfl, .refl o a⟩

theorem pause (n : Nat) : Enacts o (Work.pause n) a (.ok ()) [] := ⟨a, Work.drive_pause n a, .refl o a⟩

/-- A step of work in which no listener raises. -/
theorem of_passage {x : α} (hdrive : w.drive a = (.ok x, b)) (h : Passage o xs a b)
    (hnone : a.stop xs = none) : Enacts o w a (.ok x) xs :=
  ⟨b, by rw [hnone]; exact hdrive, by rwa [played_of_none hnone]⟩

theorem say (e : Event LogLevel) : Enacts o (Work.now (emit e)) a (.ok ()) [.emits ⟨a.clock, e⟩] := by
  have hplayed : a.played [.emits ⟨a.clock, e⟩] = [.emits ⟨a.clock, e⟩] :=
    List.take_of_length_le (Nat.succ_le_succ (Nat.zero_le _))
  have hstop : a.stop [.emits ⟨a.clock, e⟩] = a.refusalOf ⟨a.clock, e⟩ := by
    rw [stop, List.findSome?_singleton]
    rfl
  have hdrive : (Work.now (emit e)).drive a =
      (reply (a.stop [.emits ⟨a.clock, e⟩]) (.ok ()), (emit e a).2) := by
    rw [Work.drive_now, emit_eq, hstop]
    cases a.refusalOf ⟨a.clock, e⟩ <;> rfl
  refine ⟨(emit e a).2, hdrive, ?_⟩
  rw [hplayed, emit_eq]
  exact
    { rest := rfl
      clock := rfl
      stamps := rfl
      heard := rfl
      names := rfl
      slots := (Passage.refl o a).slots
      files := rfl }

/-- Two steps go through their scripts one after the other. -/
theorem bind {x : α} {r : Except Fault β} (hw : Enacts o w a (.ok x) xs)
    (hf : ∀ b, Passage o xs a b → Enacts o (f x) b r ys) : Enacts o (w.bind f) a r (xs ++ ys) := by
  obtain ⟨b, hdrive, hb⟩ := hw
  unfold Enacts
  rw [Work.drive_bind, hdrive, stop_append]
  cases hstop : a.stop xs with
  | some fault => exact ⟨b, rfl, by rwa [played_append_of_some hstop]⟩
  | none =>
    rw [played_of_none hstop] at hb
    obtain ⟨c, hdrive', hc⟩ := hf b hb
    rw [hb.stop_eq] at hdrive'
    rw [hb.played_eq] at hc
    exact ⟨c, hdrive', by rw [played_append_of_none hstop]; exact hb.trans hc⟩

/-- Two steps that only emit go through one list of events. -/
theorem bind_emits {es fs : List (Event LogLevel)} {x : α} {r : Except Fault β}
    (hw : Enacts o w a (.ok x) ((stamped a.clock es).map .emits))
    (hf : ∀ b, Passage o ((stamped a.clock es).map .emits) a b →
      Enacts o (f x) b r ((stamped b.clock fs).map .emits)) :
    Enacts o (w.bind f) a r ((stamped a.clock (es ++ fs)).map .emits) := by
  rw [stamped_append, List.map_append]
  refine hw.bind fun b hb => ?_
  rw [← hb.clock_emits]
  exact hf b hb

/-- The first step has the empty script. -/
theorem quiet_bind {x : α} {r : Except Fault β} (hw : Enacts o w a (.ok x) [])
    (hf : ∀ b, Passage o [] a b → Enacts o (f x) b r ys) : Enacts o (w.bind f) a r ys :=
  hw.bind hf

/-- The second step has the empty script. -/
theorem bind_quiet {x : α} {r : Except Fault β} (hw : Enacts o w a (.ok x) xs)
    (hf : ∀ b, Passage o xs a b → Enacts o (f x) b r []) : Enacts o (w.bind f) a r xs := by
  have hboth := hw.bind hf
  rwa [List.append_nil] at hboth

theorem bind_error {fault : Fault} (hw : Enacts o w a (.error fault) xs) :
    Enacts o (w.bind f) a (.error fault) xs := by
  obtain ⟨b, hdrive, hb⟩ := hw
  refine ⟨b, ?_, hb⟩
  rw [Work.drive_bind, hdrive]
  cases a.stop xs <;> rfl

theorem map {r : Except Fault α} (g : α → β) (hw : Enacts o w a r xs) :
    Enacts o (g <$> w) a (r.map g) xs := by
  obtain ⟨b, hdrive, hb⟩ := hw
  refine ⟨b, ?_, hb⟩
  rw [Work.drive_map, hdrive]
  cases a.stop xs <;> rfl

/-- Work that is attempted returns whatever fault a listener raises on its events. -/
theorem attempt {r : Except Fault α} (hw : Enacts o w a r xs) :
    Enacts o w.attempt a (.ok (reply (a.stop xs) r)) ((a.played xs).map Cue.absorbed) := by
  obtain ⟨b, hdrive, hb⟩ := hw
  have hnone : a.stop ((a.played xs).map Cue.absorbed) = none := by
    rw [stop_eq_none_iff]
    intro p hp
    obtain ⟨c, -, hc⟩ := List.mem_map.mp hp
    cases c <;> cases hc
  refine of_passage (b := b) ?_ (hb.congr (Cue.emitted_absorbed _) (Cue.launches_absorbed _)) hnone
  rw [Work.drive_attempt, hdrive]

/-- What is done at once in two steps is done step by step. -/
theorem now_bind {e : Effect Analyzer α} {g : α → Effect Analyzer β} {r : Except Fault β}
    (h : Enacts o ((Work.now e).bind fun x => Work.now (g x)) a r xs) :
    Enacts o (Work.now (e >>= g)) a r xs := by
  obtain ⟨b, hdrive, hb⟩ := h
  exact ⟨b, by rw [Work.drive_now_bind, hdrive], hb⟩

/-- If no listener raises on the events of a script, it is gone through to its end. -/
theorem of_takesAll {es : List (Event LogLevel)} {r : Except Fault α}
    (hw : Enacts o w a r ((stamped a.clock es).map .emits)) (hquiet : a.TakesAll es) :
    ∃ b, w.drive a = (r, b) ∧ Course o es [] a b := by
  obtain ⟨b, hdrive, hb⟩ := hw
  rw [stop_emits, firstRefusal_of_takesAll hquiet] at hdrive
  rw [played_emits, published_of_takesAll hquiet] at hb
  have hcourse := hb.course (Cue.emitted_emits _) hquiet
  rw [Cue.launches_emits] at hcourse
  exact ⟨b, hdrive, hcourse⟩

theorem now_get {g : Analyzer → Effect Analyzer β} {r : Except Fault β}
    (h : Enacts o (Work.now (g a)) a r xs) : Enacts o (Work.now (get >>= g)) a r xs :=
  h

theorem now_lift {x : α} {g : α → Effect Analyzer β} {r : Except Fault β}
    (h : Enacts o (Work.now (g x)) a r xs) :
    Enacts o (Work.now (liftM (Except.ok x : Except Fault α) >>= g)) a r xs :=
  h

end Enacts

end Analyzer

end Polyscan
