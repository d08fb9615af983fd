import Polyscan.Proofs.Work
import Polyscan.Work.Task

/-!
Work that runs beside other work: the effect of one turn, and of the turns in the middle of a round.
-/
namespace Polyscan.Work

variable {σ α β : Type}

/-- A turn of an effect and what comes after it. -/
theorem resume_now_bind (e : Effect σ α) (f : α → Work σ β) (s : σ) :
    ((now e).bind f).resume s =
      match e s with
      | (.ok x, t) => (f x).resume t
      | (.error fault, t) => (.done (.error fault), t) := by
  show ((Work.done (e s).1).bind f).resume (e s).2 = _
  rcases e s with ⟨_ | x, t⟩ <;> rfl

theorem bind_assoc {γ : Type} (w : Work σ α) (f : α → Work σ β) (g : β → Work σ γ) :
    (w.bind f).bind g = w.bind fun x => (f x).bind g := by
  induction w with
  | done r => cases r <;> rfl
  | get next ih => exact congrArg Work.get (funext ih)
  | put s next ih => exact congrArg (Work.put s) ih
  | wait ready next ih => exact congrArg (Work.wait ready) ih

/-- Work that has had its turn is finished or waits. -/
theorem resume_rests (w : Work σ α) (s : σ) :
    (∃ r, (w.resume s).1 = .done r) ∨ ∃ ready next, (w.resume s).1 = .wait ready next := by
  induction w generalizing s with
  | done r => exact .inl ⟨r, rfl⟩
  | get next ih => exact ih s s
  | put s' next ih => exact ih s'
  | wait ready next ih => exact .inr ⟨ready, next, rfl⟩

/-- Work that ends in a turn does not wait before. -/
theorem turn_of_resume_done {w : Work σ α} {r : Except Fault α} {s s' : σ} (h : w.resume s = (.done r, s')) :
    w.turn s = (.done r, s') := by
  cases w with
  | wait ready next => cases h
  | _ => exact h

theorem drive_resume (w : Work σ α) (s : σ) : (w.resume s).1.drive (w.resume s).2 = w.drive s := by
  induction w generalizing s with
  | done r => rfl
  | get next ih => exact ih s s
  | put s' next ih => exact ih s'
  | wait ready next ih => rfl

/-- A turn does not affect the outcome of work that runs alone. -/
theorem drive_turn (w : Work σ α) (s : σ) : (w.turn s).1.drive (w.turn s).2 = w.drive s := by
  cases w with
  | wait ready next =>
    by_cases hready : ready s = true
    · simp only [turn, hready, if_true]
      exact drive_resume next s
    · simp only [turn, hready]
      rfl
  | _ => exact drive_resume _ s

/-! ## Turns in a row -/

/-- Turns for the pieces in a list, in the middle of a round. -/
def takeTurns (g : Gathering σ α) (s : σ) (todo : List (Nat × Work σ α)) : Gathering σ α × σ :=
  todo.foldl (fun (g, s) (position, w) => g.takeTurn position w s) (g, s)

theorem takeTurns_cons (g : Gathering σ α) (s : σ) (k : Nat) (w : Work σ α)
    (todo : List (Nat × Work σ α)) :
    takeTurns g s ((k, w) :: todo) = takeTurns (g.takeTurn k w s).1 (g.takeTurn k w s).2 todo := rfl

theorem takeTurn_of_done {g : Gathering σ α} {k : Nat} {w : Work σ α} {s : σ} {r : Except Fault α}
    (hr : (w.turn s).1.result? = some r) :
    g.takeTurn k w s = ({ g with finished := g.finished ++ [(k, r)] }, (w.turn s).2) := by
  simp only [Gathering.takeTurn, hr]

theorem takeTurn_of_running {g : Gathering σ α} {k : Nat} {w : Work σ α} {s : σ}
    (hr : (w.turn s).1.result? = none) :
    g.takeTurn k w s = ({ g with running := g.running ++ [(k, (w.turn s).1)] }, (w.turn s).2) := by
  simp only [Gathering.takeTurn, hr]

/-- One round, and then the remaining ones. -/
theorem drive_rounds_succ (limit : Nat) (running : List (Nat × Work σ α))
    (finished : List (Nat × Except Fault α)) (s : σ) :
    (Gathering.rounds (limit + 1) running finished).drive s =
      (if (takeTurns ⟨[], finished⟩ s running).1.running.isEmpty then
        pure (takeTurns ⟨[], finished⟩ s running).1.finished
      else Gathering.rounds limit (takeTurns ⟨[], finished⟩ s running).1.running
        (takeTurns ⟨[], finished⟩ s running).1.finished).drive (takeTurns ⟨[], finished⟩ s running).2 := rfl

/-! ## Tasks -/

namespace Gathering

/-- The results of all pieces are known only when none is running. -/
theorem running_of_outcome? {g : Gathering σ α} {count : Nat} {results : List α}
    (h : g.outcome? count = some (.ok results)) : g.running = [] := by
  unfold outcome? together at h
  cases hfailure : failure? g.finished with
  | some f => simp [hfailure] at h
  | none =>
    simp only [hfailure, Option.isSome_none, Bool.false_or, Option.ite_none_right_eq_some] at h
    exact List.isEmpty_iff.mp h.1

end Gathering

namespace Task

variable {ρ : Type} {w : Work σ (Branch σ ρ α)} {next : Except Fault (List ρ) → Work σ α} {g : Gathering σ ρ}
variable {s s' : σ} {count : Nat}

theorem mainTurn_of_stop {y : α} (h : w.turn s = (.done (.ok (.stop y)), s')) :
    (⟨.before w, g⟩ : Task σ ρ α).mainTurn s = (⟨.after (pure y), g⟩, s') := by
  simp only [mainTurn, h]

theorem mainTurn_of_fork {limit : Nat} {pieces : List (Work σ ρ)}
    (h : w.turn s = (.done (.ok (.fork limit pieces next)), s')) :
    (⟨.before w, g⟩ : Task σ ρ α).mainTurn s = (⟨.within pieces.length next, ⟨positioned pieces, []⟩⟩, s') := by
  simp only [mainTurn, h]

theorem mainTurn_of_wait {ready : σ → Bool} {rest : Work σ (Branch σ ρ α)}
    (h : w.turn s = (.wait ready rest, s')) :
    (⟨.before w, g⟩ : Task σ ρ α).mainTurn s = (⟨.before (.wait ready rest), g⟩, s') := by
  simp only [mainTurn, h]

theorem mainTurn_of_outcome {r : Except Fault (List ρ)} (h : g.outcome? count = some r) :
    (⟨.within count next, g⟩ : Task σ ρ α).mainTurn s =
      (⟨.after ((next r).resume s).1, g⟩, ((next r).resume s).2) := by
  simp only [mainTurn, h]

theorem mainTurn_of_no_outcome (h : g.outcome? count = none) :
    (⟨.within count next, g⟩ : Task σ ρ α).mainTurn s = (⟨.within count next, g⟩, s) := by
  simp only [mainTurn, h]

theorem mainTurn_after (w : Work σ α) (g : Gathering σ ρ) (s : σ) :
    (⟨.after w, g⟩ : Task σ ρ α).mainTurn s = (⟨.after (w.turn s).1, g⟩, (w.turn s).2) := rfl

theorem pieceTurn_main (x : Task σ ρ α) (index : Nat) (s : σ) : (x.pieceTurn index s).1.main = x.main := by
  unfold pieceTurn
  split <;> rfl

theorem pieceTurn_of_none {x : Task σ ρ α} (h : x.pieces.running = []) (index : Nat) (s : σ) :
    x.pieceTurn index s = (x, s) := by
  simp [pieceTurn, h]

/-- A finished task stays finished, also while pieces of it run. -/
theorem result?_turn {x : Task σ ρ α} {r : Except Fault α} (h : x.result? = some r) (s : σ) (part : Part) :
    (x.turn s part).1.result? = some r := by
  cases part with
  | piece index =>
    show (x.pieceTurn index s).1.result? = some r
    unfold result? at h ⊢
    rw [pieceTurn_main]
    exact h
  | main =>
    obtain ⟨main, pieces⟩ := x
    cases main with
    | after w =>
      cases w with
      | done r' => exact h
      | _ => cases h
    | _ => cases h

end Task

/-! ## Work on a part -/

/-- Work on a part of a state changes that part only, if `look` and `store` are a lens. -/
theorem drive_zoom {τ : Type} (look : τ → σ) (store : σ → τ → τ) (hlook : ∀ s t, look (store s t) = s)
    (hstore : ∀ s s' t, store s' (store s t) = store s' t) (hsame : ∀ t, store (look t) t = t)
    (w : Work σ α) (t : τ) :
    (w.zoom look store).drive t = ((w.drive (look t)).1, store (w.drive (look t)).2 t) := by
  induction w generalizing t with
  | done r => simp [zoom, drive, hsame]
  | get next ih => exact ih (look t) t
  | put s next ih =>
    rw [zoom, drive, drive, drive, ih, hlook, hstore]
  | wait ready next ih => exact ih t

/-- A pure continuation belongs to the same turn. -/
theorem resume_bind_pure (w : Work σ α) (f : α → β) (s : σ) :
    (w.bind fun x => pure (f x)).resume s = ((w.resume s).1.bind fun x => pure (f x), (w.resume s).2) := by
  induction w generalizing s with
  | done r => cases r <;> rfl
  | get next ih => exact ih s s
  | put s' next ih => exact ih s'
  | wait ready next ih => rfl

section

variable {τ : Type} {look : τ → σ} {store : σ → τ → τ} (hlook : ∀ s t, look (store s t) = s)
variable (hstore : ∀ s s' t, store s' (store s t) = store s' t)
variable (hsame : ∀ t, store (look t) t = t)

include hlook hstore hsame

/-- A turn of work on a part changes that part. -/
theorem resume_zoom (w : Work σ α) (t : τ) :
    (w.zoom look store).resume t = ((w.resume (look t)).1.zoom look store, store (w.resume (look t)).2 t) := by
  induction w generalizing t with
  | done r => exact congrArg (Prod.mk _) (hsame t).symm
  | get next ih => exact ih (look t) t
  | put s next ih =>
    show (next.zoom look store).resume (store s t) = _
    rw [ih, hlook, hstore]
    rfl
  | wait ready next ih => exact congrArg (Prod.mk _) (hsame t).symm

theorem turn_zoom (w : Work σ α) (t : τ) :
    (w.zoom look store).turn t = ((w.turn (look t)).1.zoom look store, store (w.turn (look t)).2 t) := by
  cases w with
  | wait ready next =>
    show (if ready (look t) then (next.zoom look store).resume t else _) = _
    cases hready : ready (look t) with
    | true => simp only [turn, hready, if_true, resume_zoom hlook hstore hsame]
    | false => simp only [turn, hready, Bool.false_eq_true, if_false, hsame, zoom]
  | _ => exact resume_zoom hlook hstore hsame _ t

end

/-! ### Pieces of work on a part -/

section

variable {τ : Type} (look : τ → σ) (store : σ → τ → τ)

/-- Pieces of work, each on a part of a larger state. -/
def zoomed (running : List (Nat × Work σ α)) : List (Nat × Work τ α) :=
  running.map fun x => (x.1, x.2.zoom look store)

def Gathering.zoom (g : Gathering σ α) : Gathering τ α := { g with running := zoomed look store g.running }

theorem result?_zoom (w : Work σ α) : (w.zoom look store).result? = w.result? := by
  cases w <;> rfl

theorem positioned_zoom (works : List (Work σ α)) :
    zoomed look store (positioned works) = positioned (works.map (zoom look store)) := by
  refine List.ext_getElem? fun i => ?_
  simp only [zoomed, positioned, List.getElem?_map, List.getElem?_mapIdx, Option.map_map]
  rfl

variable {look store} (hlook : ∀ s t, look (store s t) = s) (hstore : ∀ s s' t, store s' (store s t) = store s' t)
variable (hsame : ∀ t, store (look t) t = t)

include hlook hstore hsame

theorem takeTurn_zoom (g : Gathering σ α) (k : Nat) (w : Work σ α) (t : τ) :
    (g.zoom look store).takeTurn k (w.zoom look store) t =
      ((g.takeTurn k w (look t)).1.zoom look store, store (g.takeTurn k w (look t)).2 t) := by
  have hturn := turn_zoom hlook hstore hsame w t
  have hresult : ((w.zoom look store).turn t).1.result? = (w.turn (look t)).1.result? := by
    rw [hturn, result?_zoom]
  cases hr : (w.turn (look t)).1.result? with
  | some r => rw [takeTurn_of_done hr, takeTurn_of_done (hresult.trans hr), hturn]; rfl
  | none =>
    rw [takeTurn_of_running hr, takeTurn_of_running (hresult.trans hr), hturn]
    simp [Gathering.zoom, zoomed]

/-- Turns of pieces of work on a part. -/
theorem takeTurns_zoom (g : Gathering σ α) (todo : List (Nat × Work σ α)) (t : τ) :
    takeTurns (g.zoom look store) t (zoomed look store todo) =
      ((takeTurns g (look t) todo).1.zoom look store, store (takeTurns g (look t) todo).2 t) := by
  induction todo generalizing g t with
  | nil => exact congrArg (Prod.mk _) (hsame t).symm
  | cons x rest ih =>
    obtain ⟨k, w⟩ := x
    show takeTurns (g.zoom look store) t ((k, w.zoom look store) :: zoomed look store rest) = _
    rw [takeTurns_cons, takeTurn_zoom hlook hstore hsame, ih, hlook, hstore, takeTurns_cons]

theorem drive_inTurn_zoom (running : List (Nat × Work σ α)) (finished : List (Nat × Except Fault α)) (t : τ) :
    (Gathering.inTurn finished (zoomed look store running)).drive t =
      (((Gathering.inTurn finished running).drive (look t)).1,
        store ((Gathering.inTurn finished running).drive (look t)).2 t) := by
  induction running generalizing finished t with
  | nil => exact congrArg (Prod.mk _) (hsame t).symm
  | cons x rest ih =>
    obtain ⟨k, w⟩ := x
    show (Work.bind (w.zoom look store).attempt fun r =>
      Gathering.inTurn (finished ++ [(k, r)]) (zoomed look store rest)).drive t = _
    rw [drive_bind, drive_attempt, drive_zoom look store hlook hstore hsame, Gathering.inTurn, drive_bind,
      drive_attempt]
    simp only [ih, hlook, hstore]

theorem drive_rounds_zoom (limit : Nat) (running : List (Nat × Work σ α))
    (finished : List (Nat × Except Fault α)) (t : τ) :
    (Gathering.rounds limit (zoomed look store running) finished).drive t =
      (((Gathering.rounds limit running finished).drive (look t)).1,
        store ((Gathering.rounds limit running finished).drive (look t)).2 t) := by
  induction limit generalizing running finished t with
  | zero => exact drive_inTurn_zoom hlook hstore hsame running finished t
  | succ limit ih =>
    have hempty : ((takeTurns ⟨[], finished⟩ (look t) running).1.zoom look store).running.isEmpty =
        (takeTurns ⟨[], finished⟩ (look t) running).1.running.isEmpty := by
      simp [Gathering.zoom, zoomed]
    have hround : takeTurns ⟨[], finished⟩ t (zoomed look store running) =
        ((takeTurns ⟨[], finished⟩ (look t) running).1.zoom look store,
          store (takeTurns ⟨[], finished⟩ (look t) running).2 t) :=
      takeTurns_zoom hlook hstore hsame ⟨[], finished⟩ running t
    rw [drive_rounds_succ, drive_rounds_succ, hround]
    simp only [hempty]
    cases (takeTurns ⟨[], finished⟩ (look t) running).1.running.isEmpty with
    | true => rfl
    | false =>
      have hrest := ih (takeTurns ⟨[], finished⟩ (look t) running).1.running
        (takeTurns ⟨[], finished⟩ (look t) running).1.finished
        (store (takeTurns ⟨[], finished⟩ (look t) running).2 t)
      rwa [hlook, hstore] at hrest

variable (look store) in
/-- Pieces of work on a part have the same outcome as on the part alone. -/
theorem drive_gather_zoom (limit : Nat) (works : List (Work σ α)) (t : τ) :
    (gather limit (works.map (zoom look store))).drive t =
      (((gather limit works).drive (look t)).1, store ((gather limit works).drive (look t)).2 t) := by
  rw [gather, ← positioned_zoom, drive_bind, drive_rounds_zoom hlook hstore hsame, gather, drive_bind,
    List.length_map]
  rcases (Gathering.rounds limit (positioned works) []).drive (look t) with ⟨_ | _, _⟩ <;> rfl

end

end Polyscan.Work
