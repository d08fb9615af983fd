import Polyscan.Proofs.Turns
import Polyscan.Work.Once

/-!
Laws of work. A law is a reflexive and transitive relation between states. Work abides by it if it keeps the
law in every turn, with any turns of other work in between. Combinators preserve this, so a law has to be
checked only where states are written.
-/
namespace Polyscan.Work

variable {σ τ α β : Type}

/-- Which states may follow a state. -/
structure Law (σ : Type) where
  keeps : σ → σ → Prop
  refl : ∀ s, keeps s s
  trans : ∀ {s t u}, keeps s t → keeps t u → keeps s u

/-- The current turn, which began in `s₀`, keeps the law, and so does every later turn. -/
def Law.Follows (l : Law σ) (s₀ : σ) : Work σ α → σ → Prop
  | done _, s => l.keeps s₀ s
  | get next, s => l.Follows s₀ (next s) s
  | put s next, _ => l.Follows s₀ next s
  | wait _ next, s => l.keeps s₀ s ∧ ∀ t, l.Follows t next t

/-- Every turn of the work keeps to the law. -/
def Law.Abides (l : Law σ) (w : Work σ α) : Prop := ∀ s, l.Follows s w s

namespace Law

variable {l : Law σ} {w : Work σ α} {s₀ s t : σ}

theorem Follows.since (h : l.Follows t w s) (hst : l.keeps s₀ t) : l.Follows s₀ w s := by
  induction w generalizing s with
  | done r => exact l.trans hst h
  | get next ih => exact ih s h
  | put s' next ih => exact ih h
  | wait ready next ih => exact ⟨l.trans hst h.1, h.2⟩

/-! ## Turns -/

theorem Follows.resume (h : l.Follows s₀ w s) :
    l.keeps s₀ (w.resume s).2 ∧ l.Abides (w.resume s).1 := by
  induction w generalizing s with
  | done r => exact ⟨h, l.refl⟩
  | get next ih => exact ih s h
  | put s' next ih => exact ih h
  | wait ready next ih => exact ⟨h.1, fun t => ⟨l.refl t, h.2⟩⟩

/-- A turn keeps the law, and the rest of the work abides by it. -/
theorem Abides.turn (h : l.Abides w) (s : σ) : l.keeps s (w.turn s).2 ∧ l.Abides (w.turn s).1 := by
  cases w with
  | wait ready next =>
    rw [Work.turn]
    split
    · exact Follows.resume ((h s).2 s)
    · exact ⟨l.refl s, h⟩
  | _ => exact (h s).resume

theorem Follows.drive (h : l.Follows s₀ w s) : l.keeps s₀ (w.drive s).2 := by
  induction w generalizing s₀ s with
  | done r => exact h
  | get next ih => exact ih s h
  | put s' next ih => exact ih h
  | wait ready next ih => exact l.trans h.1 (ih (h.2 s))

theorem Abides.drive (h : l.Abides w) (s : σ) : l.keeps s (w.drive s).2 := (h s).drive

/-! ## Combinators -/

namespace Abides

theorem done (r : Except Fault α) : l.Abides (.done r : Work σ α) := l.refl

theorem pure (x : α) : l.Abides (Pure.pure x : Work σ α) := l.refl

theorem throw (f : Fault) : l.Abides (MonadExcept.throw f : Work σ α) := l.refl

theorem now {e : Effect σ α} (h : ∀ s, l.keeps s (e s).2) : l.Abides (Work.now e) := h

/-- An effect that leaves every state unchanged keeps every law. -/
theorem still {e : Effect σ α} (h : ∀ s, (e s).2 = s) : l.Abides (Work.now e) :=
  now fun s => by
    rw [h]
    exact l.refl s

/-- Two effects keep a law if each of them does. -/
theorem now_bind {e : Effect σ α} {g : α → Effect σ β} (he : l.Abides (Work.now e))
    (hg : ∀ x, l.Abides (Work.now (g x))) : l.Abides (Work.now (e >>= g)) := by
  refine now fun s => ?_
  have hfirst : l.keeps s (e s).2 := he s
  rw [effect_bind]
  rcases hs : e s with ⟨fault | x, t⟩
  · rwa [hs] at hfirst
  · rw [hs] at hfirst
    exact l.trans hfirst (hg x t)

theorem get {next : σ → Work σ α} (h : ∀ s, l.Abides (next s)) : l.Abides (Work.get next) := fun s => h s s

/-- A state is written that may follow the one before. -/
theorem write {next : σ → Work σ α} {change : σ → σ} (hchange : ∀ s, l.keeps s (change s))
    (h : ∀ s, l.Abides (next s)) : l.Abides (Work.get fun s => .put (change s) (next s)) :=
  fun s => (h s (change s)).since (hchange s)

theorem wait {ready : σ → Bool} (h : l.Abides w) : l.Abides (.wait ready w) := fun s => ⟨l.refl s, h⟩

theorem pause (n : Nat) : l.Abides (Work.pause n) := by
  induction n with
  | zero => exact pure ()
  | succ n ih => exact ih.wait

theorem bind {f : α → Work σ β} (hw : l.Abides w) (hf : ∀ x, l.Abides (f x)) : l.Abides (w.bind f) := by
  have hfollows : ∀ {s₀ s}, l.Follows s₀ w s → l.Follows s₀ (w.bind f) s := by
    clear hw
    induction w with
    | done r =>
      intro s₀ s h
      cases r with
      | ok x => exact (hf x s).since h
      | error e => exact h
    | get next ih => exact fun {s₀ s} h => ih s h
    | put s' next ih => exact fun h => ih h
    | wait ready next ih => exact fun h => ⟨h.1, fun t => ih (h.2 t)⟩
  exact fun s => hfollows (hw s)

theorem attempt (hw : l.Abides w) : l.Abides w.attempt := by
  have hfollows : ∀ {s₀ s}, l.Follows s₀ w s → l.Follows s₀ w.attempt s := by
    clear hw
    induction w with
    | done r => exact fun h => h
    | get next ih => exact fun {s₀ s} h => ih s h
    | put s' next ih => exact fun h => ih h
    | wait ready next ih => exact fun h => ⟨h.1, fun t => ih (h.2 t)⟩
  exact fun s => hfollows (hw s)

theorem map (f : α → β) (hw : l.Abides w) : l.Abides (f <$> w) := hw.bind fun x => pure (f x)

theorem ensuring {cleanUp : σ → σ} (hclean : ∀ s, l.keeps s (cleanUp s)) (hw : l.Abides w) :
    l.Abides (w.ensuring cleanUp) :=
  hw.attempt.bind fun r => write hclean fun _ => done r

theorem acquire {isFree : σ → Bool} {take : σ → σ} (htake : ∀ s, l.keeps s (take s)) :
    l.Abides (Work.acquire isFree take) := by
  have htaken : l.Abides (Work.get fun s => .put (take s) (Pure.pure ())) := write htake fun _ => pure ()
  intro s
  change l.Follows s (if isFree s then _ else _) s
  split
  · exact htake s
  · exact htaken.wait s

/-! ## Shared values -/

variable {ν : Type} {spot : Once.Spot σ ν}

/-- A shared value is read, or made and stored at its spot. -/
theorem obtain {make : Work σ ν} (hstore : ∀ o s, l.keeps s (spot.store o s)) (hmake : l.Abides make) :
    l.Abides (Once.obtain spot make) := by
  have horFrom : ∀ {other : Work σ ν}, l.Abides other → l.Abides (Once.orFrom spot other) := by
    intro other hother
    refine get fun s => ?_
    cases (spot.look s).value with
    | some v => exact pure v
    | none => exact hother
  have hfill : l.Abides (Once.fill spot make) :=
    hmake.bind fun v => write (fun s => hstore _ s) fun _ => pure v
  exact horFrom ((acquire fun s => hstore _ s).bind fun _ =>
    (horFrom hfill).ensuring fun s => hstore _ s)

/-! ## Work that is started together -/

/-- Every running piece abides by the law. -/
def All (l : Law σ) (running : List (Nat × Work σ α)) : Prop := ∀ x ∈ running, l.Abides x.2

theorem takeTurn {g : Gathering σ α} (hrunning : All l g.running) (hw : l.Abides w) (k : Nat) (s : σ) :
    l.keeps s (g.takeTurn k w s).2 ∧ All l (g.takeTurn k w s).1.running := by
  obtain ⟨hkeeps, hleft⟩ := Abides.turn hw s
  cases hresult : (w.turn s).1.result? with
  | some r =>
    rw [takeTurn_of_done hresult]
    exact ⟨hkeeps, hrunning⟩
  | none =>
    rw [takeTurn_of_running hresult]
    exact ⟨hkeeps, List.forall_mem_append.mpr ⟨hrunning, by simpa using hleft⟩⟩

/-- In a round every piece has a turn. -/
theorem takeTurns {g : Gathering σ α} {todo : List (Nat × Work σ α)} (hrunning : All l g.running)
    (htodo : All l todo) (s : σ) :
    l.keeps s (Work.takeTurns g s todo).2 ∧ All l (Work.takeTurns g s todo).1.running := by
  induction todo generalizing g s with
  | nil => exact ⟨l.refl s, hrunning⟩
  | cons x rest ih =>
    obtain ⟨hw, hrest⟩ := List.forall_mem_cons.mp htodo
    obtain ⟨hkeeps, hleft⟩ := takeTurn hrunning hw x.1 s
    obtain ⟨hafter, hall⟩ := ih hleft hrest (g.takeTurn x.1 x.2 s).2
    exact ⟨l.trans hkeeps hafter, hall⟩

/-- A turn of a piece of a task keeps a law if all its pieces do. -/
theorem pieceTurn {ρ : Type} {x : Task σ ρ α} (h : All l x.pieces.running) (index : Nat) (s : σ) :
    l.keeps s (x.pieceTurn index s).2 ∧ All l (x.pieceTurn index s).1.pieces.running := by
  unfold Task.pieceTurn
  split
  · next position w hpiece =>
    exact takeTurn (fun y hy => h y (List.mem_of_mem_eraseIdx hy)) (h _ (List.mem_of_getElem? hpiece)) position s
  · exact ⟨l.refl s, h⟩

theorem inTurn {running : List (Nat × Work σ α)} (h : All l running)
    (finished : List (Nat × Except Fault α)) : l.Abides (Gathering.inTurn finished running) := by
  induction running generalizing finished with
  | nil => exact pure finished
  | cons x rest ih =>
    obtain ⟨hw, hrest⟩ := List.forall_mem_cons.mp h
    exact (attempt hw).bind fun r => ih hrest _

theorem rounds (limit : Nat) {running : List (Nat × Work σ α)} (h : All l running)
    (finished : List (Nat × Except Fault α)) : l.Abides (Gathering.rounds limit running finished) := by
  induction limit generalizing running finished with
  | zero => exact inTurn h finished
  | succ limit ih =>
    refine wait fun s => ?_
    obtain ⟨hkeeps, hall⟩ := takeTurns (g := ⟨[], finished⟩) (by simp [All]) h s
    change l.Follows s (if (Work.takeTurns ⟨[], finished⟩ s running).1.running.isEmpty then _ else _)
      (Work.takeTurns ⟨[], finished⟩ s running).2
    split
    · exact hkeeps
    · exact (ih hall _ _).since hkeeps

theorem positioned {works : List (Work σ α)} (h : ∀ w ∈ works, l.Abides w) : All l (Work.positioned works) := by
  intro x hx
  obtain ⟨i, hi, rfl⟩ := List.mem_mapIdx.mp hx
  exact h _ (List.getElem_mem hi)

theorem gather (limit : Nat) {works : List (Work σ α)} (h : ∀ w ∈ works, l.Abides w) :
    l.Abides (Work.gather limit works) :=
  (rounds limit (positioned h) []).bind fun _ => done _

end Abides

/-! ## Work on a part -/

section Part

variable (look : τ → σ) (store : σ → τ → τ)

/-- The law for a part of a larger state, where the rest stays the same. -/
def onPart (l : Law σ) (hstore : ∀ s s' t, store s' (store s t) = store s' t)
    (hsame : ∀ t, store (look t) t = t) : Law τ where
  keeps t u := l.keeps (look t) (look u) ∧ u = store (look u) t
  refl t := ⟨l.refl _, (hsame t).symm⟩
  trans := by
    intro s t u hst htu
    have hwhole : store (look u) t = store (look u) s := by rw [hst.2, hstore]
    exact ⟨l.trans hst.1 htu.1, htu.2.trans hwhole⟩

theorem Abides.zoom (hlook : ∀ s t, look (store s t) = s)
    (hstore : ∀ s s' t, store s' (store s t) = store s' t) (hsame : ∀ t, store (look t) t = t)
    (hw : l.Abides w) : (l.onPart look store hstore hsame).Abides (w.zoom look store) := by
  have hfollows : ∀ {t₀ t}, l.Follows (look t₀) w (look t) → t = store (look t) t₀ →
      (l.onPart look store hstore hsame).Follows t₀ (w.zoom look store) t := by
    clear hw
    induction w with
    | done r => exact fun h ht => ⟨h, ht⟩
    | get next ih => exact fun {t₀ t} h ht => ih (look t) h ht
    | put s next ih =>
      intro t₀ t h ht
      refine ih ?_ ?_
      · rw [hlook]
        exact h
      · rw [hlook, ht, hstore]
    | wait ready next ih => exact fun h ht => ⟨⟨h.1, ht⟩, fun t => ih (h.2 _) (hsame t).symm⟩
  exact fun t => hfollows (hw (look t)) (hsame t).symm

end Part

end Law

end Polyscan.Work
