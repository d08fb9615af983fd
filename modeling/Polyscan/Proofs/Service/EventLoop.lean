import Polyscan.Proofs.Service.Handler

/-!
Concurrent requests: an invariant of `EventLoop.play` under every schedule. One request at a time holds the
lock of `runHandler`. From the turn in which it takes the lock to the turn in which it releases it, its
listener receives what is emitted by its own tasks, and by tasks of `describeEngine` of other requests. Those
hold no lock. They belong to a request for rules, or to a request for a run that has failed because of another
engine.
-/
namespace Polyscan

namespace EventLoop

open Analyzer Http Service

variable {requests : List (Timing × Request)} {base : Analyzer} {f g : EventLoop} {holder : Option Nat}
variable {i j k n : Nat} {u : Turn} {v : Timing × Request} {x y : Work.Task Service (List Rule) Response}
variable {s : Service} {es fs : List (Event LogLevel)}

/-! ## One turn -/

/-- The state after a turn that left the task `x` and took `n` readings of the clock. -/
def advance (f : EventLoop) (u : Turn) (x : Work.Task Service (List Rule) Response) (s : Service)
    (n : Nat) : EventLoop where
  service := s
  tasks := f.tasks.set u.request x
  owners := f.owners ++ List.replicate n u

theorem turn_of_some (hx : f.tasks[u.request]? = some x)
    (hclock : (x.turn f.service u.part).2.analyzer.clock = f.service.analyzer.clock + n) :
    f.turn u = f.advance u (x.turn f.service u.part).1 (x.turn f.service u.part).2 n := by
  simp only [turn, hx, hclock, Nat.add_sub_cancel_left, advance]

theorem play_snoc (f : EventLoop) (schedule : List Turn) (u : Turn) :
    f.play (schedule ++ [u]) = (f.play schedule).turn u :=
  List.foldl_append

/-- A finished task stays finished, so a request is answered once. -/
theorem answer?_advance {answer : Response} (hx : f.tasks[u.request]? = some x)
    (hkept : ∀ r, x.result? = some r → y.result? = some r) (h : f.answer? i = some answer) :
    (f.advance u y s n).answer? i = some answer := by
  by_cases hi : u.request = i
  · subst hi
    obtain ⟨r, hr, hanswer⟩ := Option.bind_eq_some_iff.mp h
    rw [hx] at hr
    show (((f.tasks.set u.request y)[u.request]?).bind _).bind _ = _
    rw [List.getElem?_set_self', hx]
    exact Option.bind_eq_some_iff.mpr ⟨r, hkept r hr, hanswer⟩
  · show (((f.tasks.set u.request y)[i]?).bind _).bind _ = _
    rw [List.getElem?_set_ne hi]
    exact h

/-! ## Windows of readings -/

/-- A request whose tasks may emit events without the lock: one for rules, or one for a run that has failed. -/
inductive PublishesUnlocked (requests : List (Timing × Request)) (f : EventLoop) (i : Nat) : Prop
  | rules {v : Timing × Request} {p : RulesRequest} (hv : requests[i]? = some v) (hasks : AsksRules v.2 p)
  | failed {v : Timing × Request} {q : RunRequest} {fault : Fault} (hv : requests[i]? = some v)
      (hasks : AsksRun v.2 q) (hanswer : f.answer? i = some (.ofFault fault))

theorem PublishesUnlocked.advance (h : PublishesUnlocked requests f j) (hx : f.tasks[u.request]? = some x)
    (hkept : ∀ r, x.result? = some r → y.result? = some r) :
    PublishesUnlocked requests (f.advance u y s n) j := by
  cases h with
  | rules hv hasks => exact .rules hv hasks
  | failed hv hasks hanswer => exact .failed hv hasks (answer?_advance hx hkept hanswer)

theorem PublishesUnlocked.of_tasks_eq (h : PublishesUnlocked requests f j) (htasks : g.tasks = f.tasks) :
    PublishesUnlocked requests g j := by
  cases h with
  | rules hv hasks => exact .rules hv hasks
  | failed hv hasks hanswer =>
    unfold answer? at hanswer
    rw [← htasks] at hanswer
    exact .failed hv hasks hanswer

/-- The events that the listener of request `i` receives: one for each reading of the clock in `window`, in
order, except those on which a listener before it raises. All readings taken in turns of the request are in
`window`. Any other reading in it was taken by a piece of another request, in which an engine describes its
rules. -/
structure ListsWindow (requests : List (Timing × Request)) (base : Analyzer) (f : EventLoop) (i : Nat)
    (before window after : List Turn) (es : List (Event LogLevel)) (events : List (Published LogLevel)) :
    Prop where
  outside : ∀ u ∈ before ++ after, u.request ≠ i
  meanwhile : ∀ u ∈ window, u.request ≠ i → u.part ≠ .main ∧ PublishesUnlocked requests f u.request
  length : es.length = window.length
  events : events = (stamped (base.clock + before.length) es).filter fun p => (base.refusalOf p).isNone

namespace ListsWindow

variable {before window after : List Turn} {events : List (Published LogLevel)}

theorem nil (h : ∀ u ∈ before, u.request ≠ i) : ListsWindow requests base f i before [] [] [] [] where
  outside := by simpa using h
  meanwhile := nofun
  length := rfl
  events := rfl

theorem mono (h : ListsWindow requests base f i before window after es events)
    (hkept : ∀ j, PublishesUnlocked requests f j → PublishesUnlocked requests g j) :
    ListsWindow requests base g i before window after es events where
  outside := h.outside
  meanwhile u hu hne := ⟨(h.meanwhile u hu hne).1, hkept _ (h.meanwhile u hu hne).2⟩
  length := h.length
  events := h.events

/-- Events of a turn of the request itself, or of a piece of another one, extend the window. -/
theorem more (h : ListsWindow requests base f i before window [] es events)
    (hu : fs = [] ∨ u.request = i ∨ u.part ≠ .main ∧ PublishesUnlocked requests f u.request) :
    ListsWindow requests base f i before (window ++ List.replicate fs.length u) [] (es ++ fs)
      (events ++ (stamped (base.clock + before.length + window.length) fs).filter fun p =>
        (base.refusalOf p).isNone) where
  outside := h.outside
  meanwhile := by
    refine List.forall_mem_append.mpr ⟨h.meanwhile, fun y hy hne => ?_⟩
    obtain ⟨hpos, rfl⟩ := List.mem_replicate.mp hy
    rcases hu with rfl | hown | hother
    · exact absurd rfl hpos
    · exact absurd hown hne
    · exact hother
  length := by rw [List.length_append, List.length_append, List.length_replicate, h.length]
  events := by rw [stamped_append, List.filter_append, ← h.events, h.length]

/-- Events after the listener is gone are not in the window. -/
theorem later (h : ListsWindow requests base f i before window after es events) {more : List Turn}
    (hmore : ∀ u ∈ more, u.request ≠ i) :
    ListsWindow requests base f i before window (after ++ more) es events where
  outside := by
    rw [← List.append_assoc]
    exact List.forall_mem_append.mpr ⟨h.outside, hmore⟩
  meanwhile := h.meanwhile
  length := h.length
  events := h.events

theorem map_tick_stamped (tick : Nat) (es : List (Event LogLevel)) :
    (stamped tick es).map Published.tick = List.range' tick es.length := by
  induction es generalizing tick with
  | nil => rfl
  | cons e rest ih => rw [stamped, List.map_cons, ih, List.length_cons, List.range'_succ]

/-- If no other request emits events without the lock, the window has readings of this request only. -/
theorem alone (h : ListsWindow requests base f i before window after es events)
    (hnone : ∀ j, j ≠ i → ¬ PublishesUnlocked requests f j) : ∀ u ∈ window, u.request = i := by
  intro u hu
  by_contra hne
  exact hnone u.request hne (h.meanwhile u hu hne).2

/-- If no listener raises, there is one event for each reading of `window`. -/
theorem ticks (h : ListsWindow requests base f i before window after es events) (hquiet : ∀ e, base.Takes e) :
    events.map Published.tick = List.range' (base.clock + before.length) window.length := by
  have hall : ∀ p ∈ stamped (base.clock + before.length) es, (base.refusalOf p).isNone = true := by
    intro p _
    rw [refusalOf_eq_none_iff.mpr (hquiet p.event p.tick)]
    rfl
  rw [h.events, List.filter_eq_self.mpr hall, map_tick_stamped, h.length]

/-- A window with readings of this request only has all readings of the request. -/
theorem readings (h : ListsWindow requests base f i before window after es events)
    (howners : g.owners = before ++ window ++ after) (halone : ∀ u ∈ window, u.request = i) :
    g.readings base.clock i = List.range' (base.clock + before.length) window.length := by
  have hnone : ∀ (l : List Turn) (first : Nat), (∀ u ∈ l, u.request ≠ i) →
      (l.zipIdx first).filter (fun x => x.1.request = i) = [] := by
    intro l first hl
    rw [List.filter_eq_nil_iff]
    intro x hx
    simpa using hl x.1 (List.fst_mem_of_mem_zipIdx hx)
  have hall : ∀ x ∈ window.zipIdx (base.clock + before.length), decide (x.1.request = i) = true := by
    intro x hx
    exact decide_eq_true (halone x.1 (List.fst_mem_of_mem_zipIdx hx))
  obtain ⟨hbefore, hafter⟩ := List.forall_mem_append.mp h.outside
  -- before and after the window there is no reading of the request, and in the window there is no other
  rw [EventLoop.readings, howners, List.zipIdx_append, List.zipIdx_append, List.filter_append, List.filter_append,
    hnone _ _ hbefore, hnone _ _ hafter, List.filter_eq_self.mpr hall, List.nil_append, List.append_nil,
    List.zipIdx_map_snd]

end ListsWindow

/-- The response to a request for a run: a failure, or a report of what its listener received. -/
inductive Answered (requests : List (Timing × Request)) (base : Analyzer) (f : EventLoop) (i : Nat) :
    Response → Prop
  | failed (fault : Fault) : Answered requests base f i (.ofFault fault)
  | reported {report : RunReport} {before window after : List Turn} {es : List (Event LogLevel)}
      (howners : f.owners = before ++ window ++ after)
      (h : ListsWindow requests base f i before window after es report.events) :
      Answered requests base f i (Response.ok report.toJson).writable

theorem Answered.advance {answer : Response} (h : Answered requests base f i answer)
    (hu : ∀ y ∈ List.replicate n u, y.request ≠ i)
    (hkept : ∀ j, PublishesUnlocked requests f j → PublishesUnlocked requests (f.advance u y s n) j) :
    Answered requests base (f.advance u y s n) i answer := by
  cases h with
  | failed fault => exact .failed fault
  | @reported report before window after es howners h =>
    have hwhole : (f.advance u y s n).owners = before ++ window ++ (after ++ List.replicate n u) := by
      rw [EventLoop.advance, howners, List.append_assoc]
    exact .reported hwhole ((h.mono hkept).later hu)

/-! ## Stages -/

/-- The clock has one reading for each owner, and listeners raise on the same events as in the beginning. -/
structure Synced (base : Analyzer) (f : EventLoop) : Prop where
  numbered : f.service.analyzer.Numbered
  clock : f.service.analyzer.clock = base.clock + f.owners.length
  refusals : ∀ p, f.service.analyzer.refusalOf p = base.refusalOf p

theorem Synced.advance (h : Synced base f) (ht : Emits fs f.service.analyzer s.analyzer) :
    Synced base (f.advance u y s fs.length) where
  numbered := h.numbered.of_emits ht
  clock := by
    show s.analyzer.clock = base.clock + (f.owners ++ List.replicate fs.length u).length
    rw [ht.clock, h.clock, List.length_append, List.length_replicate, Nat.add_assoc]
  refusals p := (ht.refusalOf p).trans (h.refusals p)

/-- The listener `k` of request `i` subscribed before the first reading of the request, and has received all
events since. -/
inductive Listens (requests : List (Timing × Request)) (base : Analyzer) (f : EventLoop) (i k : Nat) : Prop
  | intro {others : Bus Nat} {before window : List Turn} {es : List (Event LogLevel)}
      (hattends : f.service.analyzer.Attends others k) (howners : f.owners = before ++ window)
      (hheard : ListsWindow requests base f i before window [] es (f.service.analyzer.heardBy k))

theorem Listens.advance (h : Listens requests base f i k) (hsynced : Synced base f)
    (ht : Emits fs f.service.analyzer s.analyzer)
    (hkept : ∀ j, PublishesUnlocked requests f j → PublishesUnlocked requests (f.advance u y s fs.length) j)
    (hu : fs = [] ∨ u.request = i ∨ u.part ≠ .main ∧ PublishesUnlocked requests f u.request) :
    Listens requests base (f.advance u y s fs.length) i k := by
  cases h with
  | @intro others before window es hattends howners hheard =>
    have hwhole : (f.advance u y s fs.length).owners = before ++ (window ++ List.replicate fs.length u) := by
      rw [EventLoop.advance, howners, List.append_assoc]
    have hclock := hsynced.clock
    rw [howners, List.length_append, ← Nat.add_assoc] at hclock
    refine .intro (hattends.of_emits ht) hwhole ((?_ : ListsWindow _ _ f _ _ _ _ (es ++ fs) _).mono hkept)
    show ListsWindow requests base f i before _ [] _ (s.analyzer.heardBy k)
    rw [hattends.heardBy ht, hclock]
    simpa only [hsynced.refusals] using hheard.more hu

/-- The request can report what its listener has received. -/
theorem Listens.reported {report : RunReport} (h : Listens requests base f i k)
    (hevents : report.events = f.service.analyzer.heardBy k)
    (hkept : ∀ j, PublishesUnlocked requests f j → PublishesUnlocked requests g j)
    (howners : g.owners = f.owners) : Answered requests base g i (Response.ok report.toJson).writable := by
  cases h with
  | @intro others before window es hattends hown hheard =>
    have hwhole : g.owners = before ++ window ++ [] := by rw [howners, hown, List.append_nil]
    rw [← hevents] at hheard
    exact .reported hwhole (hheard.mono hkept)

/-- The task of a request that does not hold the lock. -/
inductive Resting (requests : List (Timing × Request)) (base : Analyzer) (f : EventLoop) (i : Nat)
    (v : Timing × Request) : Work.Task Service (List Rule) Response → Prop
  | unstarted (hnone : ∀ q, ¬ AsksRun v.2 q) : Resting requests base f i v (.start (handler v.1 v.2))
  /-- Engines are asked for the rules to list. -/
  | listing {p : RulesRequest} {count : Nat} {answers : Except Fault (List (List Rule)) → Response}
      {pieces : Work.Gathering Service (List Rule)} (hnone : ∀ q, ¬ AsksRun v.2 q) (hasks : AsksRules v.2 p) :
      Resting requests base f i v ⟨.within count fun listed => pure (answers listed), pieces⟩
  | answered {answer : Response} {pieces : Work.Gathering Service (List Rule)} (hnone : ∀ q, ¬ AsksRun v.2 q)
      (hpieces : pieces.running = [] ∨ ∃ p, AsksRules v.2 p) :
      Resting requests base f i v ⟨.after (pure answer), pieces⟩
  | fresh {q : RunRequest} (hasks : AsksRun v.2 q) (howner : ∀ u ∈ f.owners, u.request ≠ i) :
      Resting requests base f i v (.start (runHandler v.1 q))
  /-- Another run holds the lock. -/
  | queued {q : RunRequest} (hasks : AsksRun v.2 q) (howner : ∀ u ∈ f.owners, u.request ≠ i) :
      Resting requests base f i v ⟨.before (.wait (fun s => !s.running) (queued v.1 q)), ⟨[], []⟩⟩
  /-- Pieces of a failed run may go on. -/
  | ended {q : RunRequest} {answer : Response} {pieces : Work.Gathering Service (List Rule)}
      (hasks : AsksRun v.2 q) (hanswered : Answered requests base f i answer)
      (hpieces : pieces.running = [] ∨ ∃ fault, answer = .ofFault fault) :
      Resting requests base f i v ⟨.after (pure answer), pieces⟩

/-- The task of a request for a run that holds the lock, with its listener `k`. -/
inductive Holding (requests : List (Timing × Request)) (base : Analyzer) (f : EventLoop) (i : Nat)
    (v : Timing × Request) : Work.Task Service (List Rule) Response → Prop
  /-- Engines are asked for the rules to select from. -/
  | asking {q : RunRequest} {k : Nat} {w : Workspace} {count : Nat} {pieces : Work.Gathering Service (List Rule)}
      (hasks : AsksRun v.2 q) (hlistens : Listens requests base f i k) :
      Holding requests base f i v ⟨.within count fun listed => concluding v.1 k (runListed q w listed), pieces⟩
  | running {q : RunRequest} {k : Nat} {ready : Analyzer → Bool} {next : Work Analyzer (Workspace × RunResults)}
      {pieces : Work.Gathering Service (List Rule)} (hasks : AsksRun v.2 q)
      (hlistens : Listens requests base f i k) (hnext : emitting.Abides next) (hpieces : pieces.running = []) :
      Holding requests base f i v ⟨.after (concluding v.1 k (.wait ready next)), pieces⟩

/-- The stage of the task for a request, where `holder` is the request that holds the lock. -/
inductive Stage (requests : List (Timing × Request)) (base : Analyzer) (holder : Option Nat) (f : EventLoop)
    (i : Nat) (v : Timing × Request) (x : Work.Task Service (List Rule) Response) : Prop
  | resting (h : Resting requests base f i v x)
  | holding (hholder : holder = some i) (h : Holding requests base f i v x)

theorem Resting.advance (h : Resting requests base f i v x) (hu : ∀ y ∈ List.replicate n u, y.request ≠ i)
    (hkept : ∀ j, PublishesUnlocked requests f j → PublishesUnlocked requests (f.advance u y s n) j) :
    Resting requests base (f.advance u y s n) i v x := by
  have howner : (∀ u ∈ f.owners, u.request ≠ i) → ∀ z ∈ (f.advance u y s n).owners, z.request ≠ i :=
    fun hnot => List.forall_mem_append.mpr ⟨hnot, hu⟩
  cases h with
  | unstarted hnone => exact .unstarted hnone
  | listing hnone hasks => exact .listing hnone hasks
  | answered hnone hpieces => exact .answered hnone hpieces
  | fresh hasks hnot => exact .fresh hasks (howner hnot)
  | queued hasks hnot => exact .queued hasks (howner hnot)
  | ended hasks hanswered hpieces => exact .ended hasks (hanswered.advance hu hkept) hpieces

theorem Holding.advance (h : Holding requests base f i v x) (hsynced : Synced base f)
    (ht : Emits fs f.service.analyzer s.analyzer)
    (hkept : ∀ j, PublishesUnlocked requests f j → PublishesUnlocked requests (f.advance u y s fs.length) j)
    (hu : fs = [] ∨ u.request = i ∨ u.part ≠ .main ∧ PublishesUnlocked requests f u.request) :
    Holding requests base (f.advance u y s fs.length) i v x := by
  cases h with
  | asking hasks hlistens => exact .asking hasks (hlistens.advance hsynced ht hkept hu)
  | running hasks hlistens hnext hpieces =>
    exact .running hasks (hlistens.advance hsynced ht hkept hu) hnext hpieces

/-- The invariant: at most one request holds the lock, every task is at its stage, and pieces of tasks only
emit events. -/
structure Orderly (requests : List (Timing × Request)) (base : Analyzer) (holder : Option Nat)
    (f : EventLoop) : Prop where
  running : f.service.running = holder.isSome
  synced : Synced base f
  length : f.tasks.length = requests.length
  pieces : ∀ x ∈ f.tasks, Work.Law.Abides.All emittingService x.pieces.running
  stages : ∀ i v x, requests[i]? = some v → f.tasks[i]? = some x → Stage requests base holder f i v x

/-- The outcome of a turn in which a task takes, holds or releases the lock. -/
structure Moves (requests : List (Timing × Request)) (base : Analyzer) (f : EventLoop) (u : Turn)
    (v : Timing × Request) (holder : Option Nat) (x : Work.Task Service (List Rule) Response) (s : Service)
    (n : Nat) : Prop where
  running : s.running = holder.isSome
  clock : s.analyzer.clock = f.service.analyzer.clock + n
  synced : Synced base (f.advance u x s n)
  pieces : Work.Law.Abides.All emittingService x.pieces.running
  stage : Stage requests base holder (f.advance u x s n) u.request v x

/-! ## Turns of the task that holds the lock -/

section

variable {q : RunRequest} (pieces : Work.Gathering Service (List Rule))
variable (hx : f.tasks[u.request]? = some x) (hopen : x.result? = none) (hasks : AsksRun v.2 q)
variable (hlistens : Listens requests base f u.request k) (hsynced : Synced base f)
variable (hpieces : Work.Law.Abides.All emittingService pieces.running)

include hx hopen in
/-- A task that is not finished has no answer that could change. -/
theorem publishesUnlocked_advance (h : PublishesUnlocked requests f j) :
    PublishesUnlocked requests (f.advance u y s n) j :=
  h.advance hx fun _ hr => nomatch hopen.symm.trans hr

include hx hopen hasks hlistens hsynced hpieces

/-- The listener unsubscribes and the request is answered. -/
theorem moves_over {a : Analyzer} (host : Host) {answer : Response} (ht : Emits fs f.service.analyzer a)
    (hanswer : (∃ fault, answer = .ofFault fault) ∨ pieces.running = [] ∧ ∃ report : RunReport,
      answer = (Response.ok report.toJson).writable ∧ report.events = a.heardBy k) :
    Moves requests base f u v none ⟨.after (pure answer), pieces⟩
      { f.service with running := false, analyzer := { a.dismiss Topic.all k with host } } fs.length := by
  have hsynced' : Synced base (f.advance u ⟨.after (pure answer), pieces⟩
      { f.service with analyzer := a } fs.length) := hsynced.advance ht
  have hlistens' : Listens requests base (f.advance u ⟨.after (pure answer), pieces⟩
      { f.service with analyzer := a } fs.length) u.request k :=
    hlistens.advance hsynced ht (fun _ h => publishesUnlocked_advance hx hopen h) (.inr (.inl rfl))
  refine ⟨rfl, ht.clock, ⟨?_, hsynced'.clock, fun p => ?_⟩, hpieces, .resting (.ended hasks ?_ ?_)⟩
  · have hnumbered := hsynced'.numbered.dismiss Topic.all k
    exact ⟨hnumbered.subscribed, hnumbered.heard⟩
  · rw [← hsynced'.refusals]
    cases hlistens' with
    | intro hattends _ _ => exact hattends.refusalOf_dismiss p
  · rcases hanswer with ⟨fault, rfl⟩ | ⟨-, report, rfl, hevents⟩
    · exact .failed fault
    · exact hlistens'.reported hevents (fun _ h => h.of_tasks_eq rfl) rfl
  · exact hanswer.symm.imp_left And.left

/-- Selection and run go on to their next wait, or to their end. -/
theorem moves_of_resume {next : Work Analyzer (Workspace × RunResults)} (hrunning : f.service.running = true)
    (hnext : emitting.Abides next) (hfinal : pieces.running = [] ∨ ∃ fault, next = .done (.error fault)) :
    ∃ n holder w s', (concluding v.1 k next).resume f.service = (w, s') ∧
      Moves requests base f u v holder ⟨.after w, pieces⟩ s' n := by
  obtain ⟨⟨fs, ht⟩, habides⟩ := (hnext f.service.analyzer).resume
  rw [resume_concluding]
  rcases Work.resume_rests next f.service.analyzer with ⟨r, hr⟩ | ⟨ready, rest, hrest⟩
  · rw [hr]
    cases r with
    | error fault =>
      rw [resume_concluding_error]
      exact ⟨_, _, _, _, rfl, moves_over pieces hx hopen hasks hlistens hsynced hpieces _ ht (.inl ⟨fault, rfl⟩)⟩
    | ok result =>
      have hover : pieces.running = [] := by
        refine hfinal.resolve_right ?_
        rintro ⟨fault, rfl⟩
        cases hr
      obtain ⟨answer, host, hdone, hanswer⟩ := resume_concluding_done v.1 k (.ok result)
        { f.service with analyzer := (next.resume f.service.analyzer).2 }
      exact ⟨_, _, _, _, hdone, moves_over pieces hx hopen hasks hlistens hsynced hpieces host ht
        (hanswer.imp_right fun h => ⟨hover, h⟩)⟩
  · have hover : pieces.running = [] := by
      refine hfinal.resolve_right ?_
      rintro ⟨fault, rfl⟩
      cases hrest
    rw [hrest] at habides ⊢
    refine ⟨fs.length, some u.request, _, _, rfl, hrunning, ht.clock, hsynced.advance ht, hpieces,
      .holding rfl (.running hasks ?_ (fun a => (habides a).2 a) hover)⟩
    exact hlistens.advance hsynced ht (fun _ h => publishesUnlocked_advance hx hopen h) (.inr (.inl rfl))

end

/-! ## Taking the lock -/

/-- The state after a run has taken the lock and subscribed its listener. -/
def entered (f : EventLoop) : EventLoop :=
  { f with service := { f.service with running := true, analyzer := f.service.analyzer.attended } }

theorem Synced.entered (h : Synced base f) : Synced base f.entered where
  numbered := h.numbered.attended
  clock := h.clock
  refusals p := (h.numbered.refusalOf_attended p).trans (h.refusals p)

theorem Synced.listens (h : Synced base f) (howner : ∀ u ∈ f.owners, u.request ≠ i) :
    Listens requests base f.entered i f.service.analyzer.listeners := by
  have hheard : ListsWindow requests base f.entered i f.owners [] [] []
      (f.entered.service.analyzer.heardBy f.service.analyzer.listeners) := by
    rw [show f.entered.service.analyzer.heardBy _ = [] from h.numbered.heardBy_attended]
    exact .nil howner
  exact .intro h.numbered.attends (List.append_nil f.owners).symm hheard

theorem Moves.of_entered (h : Moves requests base f.entered u v holder x s n) :
    Moves requests base f u v holder x s n :=
  ⟨h.running, h.clock, h.synced, h.pieces, h.stage⟩

variable (requests) in
/-- A request that takes the lock is over if its workspace cannot be made; else all engines are asked for
their rules. -/
theorem moves_of_runEntered {q : RunRequest} (hx : f.tasks[u.request]? = some x) (hopen : x.result? = none)
    (hasks : AsksRun v.2 q) (howner : ∀ z ∈ f.owners, z.request ≠ u.request) (hsynced : Synced base f) :
    ∃ holder branch s', (runEntered v.1 q).resume { f.service with running := true } = (.done (.ok branch), s') ∧
      ((∃ answer, branch = .stop answer ∧
        Moves requests base f u v holder ⟨.after (pure answer), ⟨[], []⟩⟩ s' 0) ∨
      ∃ limit pieces next, branch = .fork limit pieces next ∧
        Moves requests base f u v holder ⟨.within pieces.length next, ⟨Work.positioned pieces, []⟩⟩ s' 0) := by
  have hlistens : Listens requests base f.entered u.request f.service.analyzer.listeners := hsynced.listens howner
  have ht := emits_createWorkspace q.workspace f.entered.service.analyzer
  rcases hcreated : createWorkspace q.workspace f.entered.service.analyzer with ⟨fault | w, a⟩
  · rw [hcreated] at ht
    have hmoves := moves_over (f := f.entered) ⟨[], []⟩ hx hopen hasks hlistens hsynced.entered (fun _ => nofun)
      a.host ht (.inl ⟨fault, rfl⟩)
    exact ⟨none, _, _, resume_runEntered_of_error (s := { f.service with running := true }) hcreated,
      .inl ⟨_, rfl, hmoves.of_entered⟩⟩
  · rw [hcreated] at ht
    obtain ⟨limit, hresume⟩ :=
      resume_runEntered_of_ok (t := v.1) (s := { f.service with running := true }) hcreated
    refine ⟨some u.request, _, _, hresume, .inr ⟨limit, _, _, rfl, Moves.of_entered ?_⟩⟩
    have hkept : ∀ {y s} j, PublishesUnlocked requests f.entered j →
        PublishesUnlocked requests (f.entered.advance u y s 0) j :=
      fun _ h => publishesUnlocked_advance (f := f.entered) hx hopen h
    have ht' : Emits [] f.entered.service.analyzer a := ht
    have hstep : ∀ y, Synced base (f.entered.advance u y { f.entered.service with analyzer := a } 0) :=
      fun y => hsynced.entered.advance (s := { f.entered.service with analyzer := a }) ht'
    refine ⟨rfl, ht.clock, hstep _, abides_describing w _, .holding rfl (.asking hasks ?_)⟩
    exact hlistens.advance (s := { f.entered.service with analyzer := a }) hsynced.entered ht' hkept (.inl rfl)

/-! ## The invariant -/

theorem PublishesUnlocked.of_turn (h : PublishesUnlocked requests f j) (hx : f.tasks[u.request]? = some x)
    (hturn : x.turn f.service u.part = (y, s)) : PublishesUnlocked requests (f.advance u y s n) j := by
  refine h.advance hx fun r hr => ?_
  have hstays := Work.Task.result?_turn hr f.service u.part
  rwa [hturn] at hstays

section

variable {main : Work.Main Service (List Rule) Response} {pieces pieces' : Work.Gathering Service (List Rule)}

/-- A request that does not hold the lock and has running pieces may emit events without it. -/
theorem Resting.publishesUnlocked (h : Resting requests base f i v ⟨main, pieces⟩) (hv : requests[i]? = some v)
    (hx : f.tasks[i]? = some ⟨main, pieces⟩) (hruns : pieces.running ≠ []) : PublishesUnlocked requests f i := by
  cases h with
  | listing hnone hasks => exact .rules hv hasks
  | answered hnone hpieces => exact .rules hv (hpieces.resolve_left hruns).choose_spec
  | ended hasks hanswered hpieces =>
    obtain ⟨fault, rfl⟩ := hpieces.resolve_left hruns
    have hanswer : f.answer? i = some (.ofFault fault) := by
      rw [answer?, hx]
      rfl
    exact .failed hv hasks hanswer
  | _ => exact absurd rfl hruns

/-- The stage of a request that does not hold the lock does not depend on its pieces. -/
theorem Resting.with_pieces (h : Resting requests base f i v ⟨main, pieces⟩) (hruns : pieces.running ≠ []) :
    Resting requests base g i v ⟨main, pieces'⟩ := by
  cases h with
  | listing hnone hasks => exact .listing hnone hasks
  | answered hnone hpieces => exact .answered hnone (.inr (hpieces.resolve_left hruns))
  | ended hasks hanswered hpieces =>
    obtain ⟨fault, rfl⟩ := hpieces.resolve_left hruns
    exact .ended hasks (.failed fault) (.inr ⟨fault, rfl⟩)
  | _ => exact absurd rfl hruns

/-- The listener of the request that holds the lock receives what its pieces emit. -/
theorem Holding.with_pieces (h : Holding requests base f i v ⟨main, pieces⟩) (hsynced : Synced base f)
    (hruns : pieces.running ≠ []) (ht : Emits fs f.service.analyzer s.analyzer) (hu : u.request = i)
    (hkept : ∀ j, PublishesUnlocked requests f j → PublishesUnlocked requests (f.advance u y s fs.length) j) :
    Holding requests base (f.advance u y s fs.length) i v ⟨main, pieces'⟩ := by
  cases h with
  | asking hasks hlistens => exact .asking hasks (hlistens.advance hsynced ht hkept (.inr (.inl hu)))
  | running _ _ _ hpieces => exact absurd hpieces hruns

end

namespace Orderly

theorem stages_advance {holder' : Option Nat} (h : Orderly requests base holder f)
    (hv : requests[u.request]? = some v) (hself : Stage requests base holder' (f.advance u y s n) u.request v y)
    (hothers : ∀ j v x, u.request ≠ j → Stage requests base holder f j v x →
      Stage requests base holder' (f.advance u y s n) j v x) :
    ∀ j v x, requests[j]? = some v → (f.advance u y s n).tasks[j]? = some x →
      Stage requests base holder' (f.advance u y s n) j v x := by
  intro j v' x hv' hx
  change (f.tasks.set u.request y)[j]? = some x at hx
  by_cases hj : u.request = j
  · subst hj
    cases hv.symm.trans hv'
    rw [List.getElem?_set_self', Option.map_eq_map, Option.map_eq_some_iff] at hx
    obtain ⟨-, -, rfl⟩ := hx
    exact hself
  · rw [List.getElem?_set_ne hj] at hx
    exact hothers j v' x hj (h.stages j v' x hv' hx)

theorem pieces_advance (h : Orderly requests base holder f)
    (hpieces : Work.Law.Abides.All emittingService y.pieces.running) :
    ∀ x ∈ (f.advance u y s n).tasks, Work.Law.Abides.All emittingService x.pieces.running := by
  intro x hx
  rcases List.mem_or_eq_of_mem_set hx with hx | rfl
  · exact h.pieces x hx
  · exact hpieces

theorem notMem_replicate (hj : u.request ≠ j) : ∀ y ∈ List.replicate n u, y.request ≠ j := by
  intro y hy
  rw [(List.mem_replicate.mp hy).2]
  exact hj

variable (h : Orderly requests base holder f) (hv : requests[u.request]? = some v)
variable (hx : f.tasks[u.request]? = some x)

include h hv hx

/-- A turn in which the lock is neither taken nor given back. -/
theorem beside (hturn : x.turn f.service u.part = (y, s)) (ht : Emits es f.service.analyzer s.analyzer)
    (hrunning : s.running = f.service.running) (hpieces : Work.Law.Abides.All emittingService y.pieces.running)
    (hes : es = [] ∨ holder = some u.request ∨ u.part ≠ .main ∧ PublishesUnlocked requests f u.request)
    (hstage : Stage requests base holder (f.advance u y s es.length) u.request v y) :
    Orderly requests base holder (f.turn u) := by
  have hkept : ∀ j, PublishesUnlocked requests f j → PublishesUnlocked requests (f.advance u y s es.length) j :=
    fun _ hj => hj.of_turn hx hturn
  have hstep := turn_of_some (n := es.length) hx (by rw [hturn]; exact ht.clock)
  rw [hturn] at hstep
  rw [hstep]
  refine ⟨hrunning.trans h.running, h.synced.advance ht, ?_, h.pieces_advance hpieces,
    h.stages_advance hv hstage fun j v' x' hj hother => ?_⟩
  · rw [← h.length]
    exact List.length_set
  · cases hother with
    | resting hrest => exact .resting (hrest.advance (notMem_replicate hj) hkept)
    | holding hheld hholding =>
      refine .holding hheld (hholding.advance h.synced ht hkept ?_)
      refine hes.imp_right fun hes => .inr (hes.resolve_left fun hmine => ?_)
      exact hj (Option.some.inj (hmine.symm.trans hheld))

/-- A turn in which nothing is emitted and the lock is left alone. -/
theorem still (hturn : x.turn f.service u.part = (y, s)) (ht : Emits [] f.service.analyzer s.analyzer)
    (hrunning : s.running = f.service.running) (hpieces : Work.Law.Abides.All emittingService y.pieces.running)
    (hrest : Resting requests base f u.request v y) : Orderly requests base holder (f.turn u) := by
  exact h.beside hv hx hturn ht hrunning hpieces (.inl rfl)
    (.resting (hrest.advance nofun fun _ hj => hj.of_turn hx hturn))

/-- A turn of a piece of a task. -/
theorem turn_of_piece {index : Nat} (hu : u.part = .piece index) : Orderly requests base holder (f.turn u) := by
  have hall := h.pieces x (List.mem_of_getElem? hx)
  have hstage := h.stages u.request v x hv hx
  by_cases hruns : x.pieces.running = []
  · have hturn : x.turn f.service u.part = (x, f.service) := by
      rw [hu]
      exact Work.Task.pieceTurn_of_none hruns index f.service
    refine h.beside hv hx hturn (.refl _) rfl hall (.inl rfl) ?_
    have hkept : ∀ j, PublishesUnlocked requests f j → PublishesUnlocked requests (f.advance u x f.service 0) j :=
      fun _ hj => hj.of_turn hx hturn
    cases hstage with
    | resting hrest => exact .resting (hrest.advance nofun hkept)
    | holding hheld hholding => exact .holding hheld (hholding.advance h.synced (.refl _) hkept (.inl rfl))
  · obtain ⟨⟨⟨es, ht⟩, hsame⟩, hleft⟩ := Work.Law.Abides.pieceTurn hall index f.service
    have hmain := x.pieceTurn_main index f.service
    rcases hturn : x.pieceTurn index f.service with ⟨⟨main, pieces⟩, s⟩
    rw [hturn] at ht hsame hleft hmain
    obtain ⟨main', pieces'⟩ := x
    obtain rfl : main = main' := hmain
    have hturn' : (⟨main, pieces'⟩ : Work.Task Service (List Rule) Response).turn f.service u.part =
        (⟨main, pieces⟩, s) := by rw [hu]; exact hturn
    have hrunning : s.running = f.service.running := by
      rw [show s = { f.service with analyzer := s.analyzer } from hsame]
    have hpart : u.part ≠ .main := by simp [hu]
    cases hstage with
    | resting hrest =>
      exact h.beside hv hx hturn' ht hrunning hleft (.inr (.inr ⟨hpart, hrest.publishesUnlocked hv hx hruns⟩))
        (.resting (hrest.with_pieces hruns))
    | holding hheld hholding =>
      exact h.beside hv hx hturn' ht hrunning hleft (.inr (.inl hheld)) (.holding hheld
        (hholding.with_pieces h.synced hruns ht rfl fun _ hj => hj.of_turn hx hturn'))

/-- A turn of the task that takes, holds or gives back the lock. -/
theorem moves {holder' : Option Nat} (hu : u.part = .main) (hturn : x.mainTurn f.service = (y, s))
    (hmine : ∀ j, holder = some j → j = u.request) (hmoves : Moves requests base f u v holder' y s n) :
    Orderly requests base holder' (f.turn u) := by
  have hturn' : x.turn f.service u.part = (y, s) := by
    rw [hu]
    exact hturn
  have hstep := turn_of_some (n := n) hx (by rw [hturn']; exact hmoves.clock)
  rw [hturn'] at hstep
  rw [hstep]
  refine ⟨hmoves.running, hmoves.synced, ?_, h.pieces_advance hmoves.pieces,
    h.stages_advance hv hmoves.stage fun j v' x' hj hother => ?_⟩
  · rw [← h.length]
    exact List.length_set
  · cases hother with
    | resting hrest =>
      exact .resting (hrest.advance (notMem_replicate hj) fun _ hb => hb.of_turn hx hturn')
    | holding hheld _ => exact absurd (hmine j hheld).symm hj

/-- A request that waits for the lock takes it if no other run holds it. -/
theorem enter {w : Handler} {q : RunRequest} (hu : u.part = .main) (hmain : x = ⟨.before w, ⟨[], []⟩⟩)
    (hasks : AsksRun v.2 q) (howner : ∀ z ∈ f.owners, z.request ≠ u.request) (hfree : f.service.running = false)
    (hturn : w.turn f.service = (runEntered v.1 q).resume { f.service with running := true }) :
    ∃ holder', Orderly requests base holder' (f.turn u) := by
  have hmine : ∀ j, holder = some j → j = u.request := by
    intro j hj
    have hrunning := h.running
    rw [hj, hfree] at hrunning
    cases hrunning
  have hopen : x.result? = none := by
    rw [hmain]
    rfl
  obtain ⟨holder', branch, s', hresume, hbranch⟩ := moves_of_runEntered requests hx hopen hasks howner h.synced
  rw [hresume] at hturn
  subst hmain
  rcases hbranch with ⟨answer, rfl, hmoves⟩ | ⟨limit, pieces, next, rfl, hmoves⟩
  · exact ⟨holder', h.moves hv hx hu (Work.Task.mainTurn_of_stop hturn) hmine hmoves⟩
  · exact ⟨holder', h.moves hv hx hu (Work.Task.mainTurn_of_fork hturn) hmine hmoves⟩

/-- A turn of a task that holds no lock. -/
theorem turn_of_resting (hu : u.part = .main) (hrest : Resting requests base f u.request v x) :
    ∃ holder', Orderly requests base holder' (f.turn u) := by
  have hall := h.pieces x (List.mem_of_getElem? hx)
  have hmain : ∀ {y s}, x.mainTurn f.service = (y, s) → x.turn f.service u.part = (y, s) := by
    intro y s hturn
    rw [hu]
    exact hturn
  cases hrest with
  | unstarted hnone =>
    obtain ⟨branch, s', hturn, ht, hrunning, hbranch⟩ := turn_handler_of_not_run hnone v.1 f.service
    rcases hbranch with ⟨answer, rfl⟩ | ⟨p, limit, pieces, answers, hasks, hpieces, rfl⟩
    · exact ⟨holder, h.still hv hx (hmain (Work.Task.mainTurn_of_stop hturn)) ht hrunning hall
        (.answered hnone (.inl rfl))⟩
    · exact ⟨holder, h.still hv hx (hmain (Work.Task.mainTurn_of_fork hturn)) ht hrunning hpieces
        (.listing hnone hasks)⟩
  | @listing p count answers pieces hnone hasks =>
    cases houtcome : pieces.outcome? count with
    | none =>
      exact ⟨holder, h.still hv hx (hmain (Work.Task.mainTurn_of_no_outcome houtcome)) (.refl _) rfl hall
        (.listing hnone hasks)⟩
    | some r =>
      exact ⟨holder, h.still hv hx (hmain (Work.Task.mainTurn_of_outcome houtcome)) (.refl _) rfl hall
        (.answered hnone (.inr ⟨p, hasks⟩))⟩
  | answered hnone hpieces =>
    exact ⟨holder, h.still hv hx (hmain rfl) (.refl _) rfl hall (.answered hnone hpieces)⟩
  | @fresh q hasks howner =>
    have hturn := turn_runHandler v.1 q f.service
    cases hrunning : f.service.running with
    | true =>
      rw [hrunning, if_pos rfl] at hturn
      exact ⟨holder, h.still hv hx (hmain (Work.Task.mainTurn_of_wait hturn)) (.refl _) rfl hall
        (.queued hasks howner)⟩
    | false =>
      rw [hrunning, if_neg Bool.false_ne_true] at hturn
      exact h.enter hv hx hu rfl hasks howner hrunning hturn
  | @queued q hasks howner =>
    cases hrunning : f.service.running with
    | true =>
      exact ⟨holder, h.still hv hx (hmain (Work.Task.mainTurn_of_wait (turn_queued_of_running hrunning)))
        (.refl _) rfl hall (.queued hasks howner)⟩
    | false => exact h.enter hv hx hu rfl hasks howner hrunning (turn_queued_of_idle hrunning)
  | ended hasks hanswered hpieces =>
    exact ⟨holder, h.still hv hx (hmain rfl) (.refl _) rfl hall (.ended hasks hanswered hpieces)⟩

/-- A turn of the task that holds the lock. -/
theorem turn_of_holding (hu : u.part = .main) (hheld : holder = some u.request)
    (hholding : Holding requests base f u.request v x) : ∃ holder', Orderly requests base holder' (f.turn u) := by
  have hall := h.pieces x (List.mem_of_getElem? hx)
  have hmine : ∀ j, holder = some j → j = u.request := fun j hj => Option.some.inj (hj.symm.trans hheld)
  have hrunning : f.service.running = true := by
    rw [h.running, hheld]
    rfl
  have hunchanged : x.mainTurn f.service = (x, f.service) →
      ∃ holder', Orderly requests base holder' (f.turn u) := by
    intro hturn
    rw [← show x.turn f.service u.part = x.mainTurn f.service by rw [hu]; rfl] at hturn
    exact ⟨holder, h.beside hv hx hturn (.refl _) rfl hall (.inl rfl) (.holding hheld
      (hholding.advance h.synced (.refl _) (fun _ hb => hb.of_turn hx hturn) (.inl rfl)))⟩
  cases hholding with
  | @asking q k w count pieces hasks hlistens =>
    cases houtcome : pieces.outcome? count with
    | none => exact hunchanged (Work.Task.mainTurn_of_no_outcome houtcome)
    | some r =>
      have hfinal : pieces.running = [] ∨ ∃ fault, runListed q w r = .done (.error fault) := by
        cases r with
        | ok listed => exact .inl (Work.Gathering.running_of_outcome? houtcome)
        | error fault => exact .inr ⟨fault, rfl⟩
      obtain ⟨n, holder', w', s', hresume, hmoves⟩ := moves_of_resume pieces hx rfl hasks hlistens h.synced hall
        hrunning (abides_runListed q w r) hfinal
      refine ⟨holder', h.moves hv hx hu ?_ hmine hmoves⟩
      rw [Work.Task.mainTurn_of_outcome houtcome, hresume]
  | @running q k ready next pieces hasks hlistens hnext hpieces =>
    cases hready : ready f.service.analyzer with
    | true =>
      obtain ⟨n, holder', w', s', hresume, hmoves⟩ :=
        moves_of_resume pieces hx rfl hasks hlistens h.synced hall hrunning hnext (.inl hpieces)
      refine ⟨holder', h.moves hv hx hu ?_ hmine hmoves⟩
      rw [Work.Task.mainTurn_after, turn_concluding_of_ready hready, hresume]
    | false =>
      refine hunchanged ?_
      rw [Work.Task.mainTurn_after, turn_concluding_of_unready hready]

end Orderly

/-- Every turn keeps the invariant, with a new holder if the lock is taken or released. -/
theorem Orderly.turn (h : Orderly requests base holder f) (u : Turn) :
    ∃ holder', Orderly requests base holder' (f.turn u) := by
  cases hx : f.tasks[u.request]? with
  | none =>
    refine ⟨holder, ?_⟩
    rwa [EventLoop.turn, hx]
  | some x =>
    have hlt : u.request < requests.length := h.length ▸ (List.getElem?_eq_some_iff.mp hx).1
    have hv : requests[u.request]? = some requests[u.request] := List.getElem?_eq_getElem hlt
    cases hu : u.part with
    | piece index => exact ⟨holder, h.turn_of_piece hv hx hu⟩
    | main =>
      cases h.stages u.request _ x hv hx with
      | resting hrest => exact h.turn_of_resting hv hx hu hrest
      | holding hheld hholding => exact h.turn_of_holding hv hx hu hheld hholding

/-- The invariant holds before any task has had a turn. -/
theorem orderly_start (hnumbered : s.analyzer.Numbered) (hidle : s.running = false)
    (requests : List (Timing × Request)) : Orderly requests s.analyzer none (start requests s) where
  running := hidle
  synced := ⟨hnumbered, rfl, fun _ => rfl⟩
  length := List.length_map _
  pieces := by
    intro x hx
    obtain ⟨v, -, rfl⟩ := List.mem_map.mp hx
    exact fun _ => nofun
  stages := by
    intro i v x hv hx
    rw [start, List.getElem?_map, hv] at hx
    cases hx
    by_cases hrun : ∃ q, AsksRun v.2 q
    · obtain ⟨q, hasks⟩ := hrun
      show Stage _ _ _ _ i v (.start (handler v.1 v.2))
      rw [hasks.handler_eq]
      exact .resting (.fresh hasks nofun)
    · exact .resting (.unstarted (not_exists.mp hrun))

/-- Every schedule keeps the invariant. -/
theorem Orderly.play (h : Orderly requests base holder f) (schedule : List Turn) :
    ∃ holder', Orderly requests base holder' (f.play schedule) := by
  induction schedule using List.reverseRecOn with
  | nil => exact ⟨holder, h⟩
  | append_singleton schedule u ih =>
    obtain ⟨holder', hplayed⟩ := ih
    rw [play_snoc]
    exact hplayed.turn u

/-- The response to a request for a run is as `Answered` says. -/
theorem Orderly.answered {q : RunRequest} {answer : Response} (h : Orderly requests base holder f)
    (hv : requests[i]? = some v) (hasks : AsksRun v.2 q) (hanswer : f.answer? i = some answer) :
    Answered requests base f i answer := by
  obtain ⟨r, hr, hok⟩ := Option.bind_eq_some_iff.mp hanswer
  obtain ⟨x, hx, hresult⟩ := Option.bind_eq_some_iff.mp hr
  cases h.stages i v x hv hx with
  | resting hrest =>
    cases hrest with
    | answered hnone _ => exact absurd hasks (hnone q)
    | ended _ hanswered _ =>
      cases hresult
      cases hok
      exact hanswered
    | _ => cases hresult
  | holding _ hholding => cases hholding <;> cases hresult

variable {t : Timing} {r : Request} {q : RunRequest} {schedule : List Turn} {answer : Response}

/-- The response of `EventLoop.play` to a request for a run, under every schedule of the tasks for all
requests and of the tasks that they start for engines. It is that of a failure, or the report of a window of
consecutive readings of the clock: one event for each reading, in order, except those on which another
listener raises. Every reading taken by a task of the request is in the window. Any other reading in it was
taken by a task of `describeEngine`, for a request for rules or for a run that has failed; without such
readings the report lists exactly what was emitted in turns of the request. If nothing runs beside, `handler`
does what `serve` does. -/
theorem run_lists_window (hnumbered : s.analyzer.Numbered) (hidle : s.running = false)
    (hrequest : requests[i]? = some (t, r)) (hasks : AsksRun r q)
    (hanswer : ((start requests s).play schedule).answer? i = some answer) :
    (∀ s', ((handler t r).bind Work.Branch.join).drive s' = (serve t r).drive s') ∧
      ((∃ fault, answer = .ofFault fault) ∨ ∃ (report : RunReport) (before window after : List Turn)
        (es : List (Event LogLevel)), answer = (Response.ok report.toJson).writable ∧
          ((start requests s).play schedule).owners = before ++ window ++ after ∧
          ListsWindow requests s.analyzer ((start requests s).play schedule) i before window after es
            report.events ∧
          ((∀ e, s.analyzer.Takes e) → answer.status = 200 →
            answer.timestamps = List.range' (s.analyzer.clock + before.length) window.length ∧
            ((∀ u ∈ window, u.request = i) →
              answer.timestamps = ((start requests s).play schedule).readings s.analyzer.clock i))) := by
  refine ⟨drive_handler t r, ?_⟩
  obtain ⟨holder, horderly⟩ := (orderly_start hnumbered hidle requests).play schedule
  cases horderly.answered hrequest hasks hanswer with
  | failed fault => exact .inl ⟨fault, rfl⟩
  | @reported report before window after es howners hheard =>
    refine .inr ⟨report, before, window, after, es, rfl, howners, hheard, fun hquiet hstatus => ?_⟩
    rw [timestamps_of_writable rfl hstatus, hheard.ticks hquiet]
    exact ⟨rfl, fun halone => (hheard.readings howners halone).symm⟩

/-- A service whose engine takes a round to describe a rule, for which the configuration overrides the
severity. -/
def slowService : Service where
  analyzer :=
    { oneFile with
      config := { rules := [("probe", [("Tab", { severity := some .high })])] }
      slots := .ofList [("probe", { tabSlot "probe" (.ok (.findings [])) with
        engine := .external
          { name := .ok "probe"
            describe := fun _ => { rounds := 1, outcome := .ok (.arr [tabData]) }
            run := fun _ _ => { report := .ok (.findings []) } } })] }
  trail := ⟨"/audit.jsonl"⟩

/-- Two requests for runs. -/
def twoRuns : List (Timing × Request) := [(sampleTiming, .forRun tabRun), (sampleTiming, .forRun tabRun)]

theorem start_twoRuns : start twoRuns slowService =
    { service := slowService
      tasks := [.start (runHandler sampleTiming tabRun), .start (runHandler sampleTiming tabRun)] } := by
  have hrun : AsksRun (.forRun tabRun) tabRun := asksRun_forRun (List.cons_ne_nil _ _)
  rw [start, twoRuns, List.map_cons, List.map_singleton, hrun.handler_eq]

/-- Two concurrent runs: the second one lists its own events only. -/
theorem run_lists_window_twoRuns :
    ∃ g answer, (start twoRuns slowService).play [⟨0, .main⟩, ⟨1, .main⟩, ⟨0, .piece 0⟩, ⟨0, .piece 0⟩, ⟨1, .main⟩,
        ⟨0, .main⟩, ⟨1, .main⟩, ⟨1, .piece 0⟩, ⟨1, .piece 0⟩, ⟨1, .main⟩] = g ∧
      g.answer? 1 = some answer ∧ answer.timestamps = g.readings slowService.analyzer.clock 1 ∧
      g.readings slowService.analyzer.clock 1 = [6, 7, 8, 9, 10, 11] := by
  generalize hplayed : (start twoRuns slowService).play _ = g
  have hstatus : (g.answer? 0).map Response.status = some 200 ∧ (g.answer? 1).map Response.status = some 200 := by
    rw [← hplayed, start_twoRuns]
    decide +kernel
  have hreadings : g.readings slowService.analyzer.clock 1 = [6, 7, 8, 9, 10, 11] := by
    rw [← hplayed, start_twoRuns]
    decide +kernel
  obtain ⟨other, hother, hokOther⟩ := Option.map_eq_some_iff.mp hstatus.1
  obtain ⟨answer, hanswer, hok⟩ := Option.map_eq_some_iff.mp hstatus.2
  have hnumbered : slowService.analyzer.Numbered := ⟨fun _ => (nomatch ·), fun _ => (nomatch ·)⟩
  have hasks : AsksRun (.forRun tabRun) tabRun := asksRun_forRun (List.cons_ne_nil _ _)
  have hquiet : ∀ e, slowService.analyzer.Takes e := fun _ _ _ hk => nomatch hk
  have hnone : ∀ j, j ≠ 1 → ¬ PublishesUnlocked twoRuns g j := by
    intro j hj hunlocked
    cases hunlocked with
    | rules hv hrules =>
      have hmem := List.mem_of_getElem? hv
      simp only [twoRuns, List.mem_cons, List.not_mem_nil, or_false, or_self] at hmem
      subst hmem
      exact hasks.not_asksRules _ hrules
    | @failed v q fault hv _ hfault =>
      have hlt : j < 2 := (List.getElem?_eq_some_iff.mp hv).1
      obtain rfl : j = 0 := by omega
      rw [hother] at hfault
      cases hfault
      exact status_ofFault_ne fault hokOther
  rw [← hplayed] at hanswer
  rcases (run_lists_window hnumbered rfl (i := 1) rfl hasks hanswer).2 with
    ⟨fault, rfl⟩ | ⟨report, before, window, after, es, -, -, hheard, hlisted⟩
  · exact absurd hok (status_ofFault_ne fault)
  · rw [hplayed] at hanswer hheard hlisted
    exact ⟨g, answer, rfl, hanswer, (hlisted hquiet hok).2 (hheard.alone hnone), hreadings⟩

/-- A request for a run and one for rules. -/
def overlapping : List (Timing × Request) := [(sampleTiming, .forRun tabRun), (sampleTiming, .forRules tabRules)]

theorem start_overlapping : start overlapping slowService =
    { service := slowService
      tasks := [.start (runHandler sampleTiming tabRun), .start (rulesHandler tabRules)] } := by
  have hrun : AsksRun (.forRun tabRun) tabRun := asksRun_forRun (List.cons_ne_nil _ _)
  rw [start, overlapping, List.map_cons, List.map_singleton, hrun.handler_eq,
    (asksRules_forRules tabRules).handler_eq]

/-- Rules are listed while the run waits for its engine, and the override event of the listing is in the
report of the run. -/
theorem run_lists_rules_events :
    ∃ g answer, (start overlapping slowService).play [⟨0, .main⟩, ⟨1, .main⟩, ⟨1, .piece 0⟩, ⟨1, .piece 0⟩,
        ⟨1, .main⟩, ⟨0, .piece 0⟩, ⟨0, .piece 0⟩, ⟨0, .main⟩] = g ∧
      g.answer? 0 = some answer ∧ answer.status = 200 ∧ answer.timestamps = [0, 1, 2, 3, 4, 5, 6] ∧
      g.readings slowService.analyzer.clock 0 = [1, 2, 3, 4, 5, 6] ∧
      g.readings slowService.analyzer.clock 1 = [0] := by
  rw [start_overlapping]
  generalize hplayed : EventLoop.play _ _ = g
  have hanswer : (g.answer? 0).map (fun answer => (answer.status, answer.timestamps)) =
      some (200, [0, 1, 2, 3, 4, 5, 6]) := by
    rw [← hplayed]
    decide +kernel
  have hreadings : g.readings slowService.analyzer.clock 0 = [1, 2, 3, 4, 5, 6] ∧
      g.readings slowService.analyzer.clock 1 = [0] := by
    rw [← hplayed]
    decide +kernel
  obtain ⟨answer, hanswer, hvalue⟩ := Option.map_eq_some_iff.mp hanswer
  obtain ⟨hstatus, hlisted⟩ := Prod.mk.inj hvalue
  exact ⟨g, answer, rfl, hanswer, hstatus, hlisted, hreadings⟩

/-- A service with a second engine, which describes its rules at once. In the workspace of the root its answer
is refused. -/
def selectiveService : Service where
  analyzer :=
    { slowService.analyzer with
      slots := .ofList (("picky", { tabSlot "picky" (.ok (.findings [])) with
        engine := .external
          { name := .ok "picky"
            describe := fun w => { outcome := .ok (.arr (if w.inputs = ["/"] then [.null] else [])) }
            run := fun _ _ => { report := .ok (.findings []) } } }) :: slowService.analyzer.slots.entries) }
  trail := slowService.trail

/-- The first run fails because of one engine, while the task of the other one goes on. The override event of that
task is in the report of the second run. -/
example :
    let g := EventLoop.play
      { service := selectiveService
        tasks := [.start (runHandler sampleTiming { tabRun with workspace := ["/"] }),
          .start (runHandler sampleTiming tabRun)] }
      [⟨0, .main⟩, ⟨0, .piece 0⟩, ⟨0, .main⟩, ⟨1, .main⟩, ⟨0, .piece 0⟩, ⟨0, .piece 0⟩, ⟨1, .piece 0⟩,
        ⟨1, .piece 0⟩, ⟨1, .piece 0⟩, ⟨1, .main⟩]
    (g.answer? 0).map Response.status = some 502 ∧
      (g.answer? 1).map Response.timestamps = some [0, 1, 2, 3, 4, 5, 6] ∧
      g.readings selectiveService.analyzer.clock 0 = [0] := by
  decide +kernel

end EventLoop

end Polyscan
