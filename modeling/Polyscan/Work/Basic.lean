import Polyscan.Fault

/-!
Work that is done in turns. A piece of work reads and writes a shared state, and other work may have turns
where it waits. There are no other turns between two waits.
-/
namespace Polyscan

/-- A change of the state in one turn. What was done before a failure stays. -/
abbrev Effect (σ α : Type) := ExceptT Fault (StateM σ) α

inductive Work (σ α : Type) where
  | done (result : Except Fault α)
  | get (next : σ → Work σ α)
  | put (s : σ) (next : Work σ α)
  /-- Gives way until the state is ready. -/
  | wait (ready : σ → Bool) (next : Work σ α)

namespace Work

variable {σ τ α β : Type}

instance : Inhabited (Work σ α) := ⟨.done (.error default)⟩

def bind : Work σ α → (α → Work σ β) → Work σ β
  | done (.ok a), f => f a
  | done (.error e), _ => done (.error e)
  | get next, f => get fun s => (next s).bind f
  | put s next, f => put s (next.bind f)
  | wait ready next, f => wait ready (next.bind f)

/-- Goes on with other work after a failure. -/
def orElse : Work σ α → (Fault → Work σ α) → Work σ α
  | done (.ok a), _ => done (.ok a)
  | done (.error e), f => f e
  | get next, f => get fun s => (next s).orElse f
  | put s next, f => put s (next.orElse f)
  | wait ready next, f => wait ready (next.orElse f)

instance : Monad (Work σ) where
  pure a := done (.ok a)
  bind := bind

instance : MonadExceptOf Fault (Work σ) where
  throw e := done (.error e)
  tryCatch := orElse

/-! ## Parts -/

/-- Does something at once. -/
def now (e : Effect σ α) : Work σ α := get fun s => put (e s).2 (done (e s).1)

/-- Gives way for a number of rounds. -/
def pause : Nat → Work σ Unit
  | 0 => pure ()
  | n + 1 => wait (fun _ => true) (pause n)

/-- Takes what can be taken once it is free; does not give way if it is free at once. -/
def acquire (isFree : σ → Bool) (take : σ → σ) : Work σ Unit :=
  get fun s =>
    if isFree s then put (take s) (pure ())
    else wait isFree (get fun s => put (take s) (pure ()))

/-- Turns a failure into a result. -/
def attempt : Work σ α → Work σ (Except Fault α)
  | done r => done (.ok r)
  | get next => get fun s => (next s).attempt
  | put s next => put s next.attempt
  | wait ready next => wait ready next.attempt

/-- Changes the state when the work is over, also after a failure. -/
def ensuring (cleanUp : σ → σ) (w : Work σ α) : Work σ α :=
  w.attempt.bind fun r => get fun s => put (cleanUp s) (done r)

/-- Work on a part of a larger state. -/
def zoom (look : τ → σ) (store : σ → τ → τ) : Work σ α → Work τ α
  | done r => done r
  | get next => get fun t => (next (look t)).zoom look store
  | put s next => get fun t => put (store s t) (next.zoom look store)
  | wait ready next => wait (fun t => ready (look t)) (next.zoom look store)

/-- Work on a state of its own, which is given at the end. -/
def withOwn : Work σ α → σ → Work τ σ
  | done (.ok _), s => done (.ok s)
  | done (.error e), _ => done (.error e)
  | get next, s => (next s).withOwn s
  | put s next, _ => next.withOwn s
  | wait ready next, s => wait (fun _ => ready s) (next.withOwn s)

/-! ## Turns -/

/-- Goes on to the next wait or the end. -/
def resume : Work σ α → σ → Work σ α × σ
  | done r, s => (done r, s)
  | get next, s => (next s).resume s
  | put s next, _ => next.resume s
  | wait ready next, s => (wait ready next, s)

/-- One turn: nothing happens unless what was waited for is ready. -/
def turn : Work σ α → σ → Work σ α × σ
  | wait ready next, s => if ready s then next.resume s else (wait ready next, s)
  | w, s => w.resume s

def result? : Work σ α → Option (Except Fault α)
  | done r => some r
  | _ => none

/-- Runs work alone to its end, so that no wait is long. -/
def drive : Work σ α → σ → Except Fault α × σ
  | done r, s => (r, s)
  | get next, s => (next s).drive s
  | put s next, _ => next.drive s
  | wait _ next, s => next.drive s

/-- The second part of work runs in the state that the first part left. -/
theorem drive_bind (w : Work σ α) (f : α → Work σ β) (s : σ) :
    (w.bind f).drive s =
      match w.drive s with
      | (.ok a, s') => (f a).drive s'
      | (.error e, s') => (.error e, s') := by
  induction w generalizing s with
  | done r => cases r <;> rfl
  | get next ih => exact ih s s
  | put s' next ih => exact ih s'
  | wait ready next ih => exact ih s

@[simp] theorem drive_now (e : Effect σ α) (s : σ) : (now e).drive s = e s := rfl

end Work

end Polyscan
