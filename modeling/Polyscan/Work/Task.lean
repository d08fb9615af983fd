import Polyscan.Work.Gather

/-!
Concurrent tasks. A task may start pieces of work as tasks of their own and wait for all of them. It goes on
as soon as one of them has failed, and the others then run on beside it.
-/
namespace Polyscan.Work

variable {σ ρ α : Type}

/-- The result of work, or the point at which it starts pieces of work as tasks and goes on with their
outcome. -/
inductive Branch (σ ρ α : Type) where
  | stop (x : α)
  | fork (limit : Nat) (pieces : List (Work σ ρ)) (next : Except Fault (List ρ) → Work σ α)

/-- Goes on from a branch if nothing runs beside. All pieces are finished first. -/
def Branch.join : Branch σ ρ α → Work σ α
  | stop x => pure x
  | fork limit pieces next => (gather limit pieces).attempt.bind next

/-- A task before it starts its pieces, while it waits for a number of them, and after that. -/
inductive Main (σ ρ α : Type) where
  | before (w : Work σ (Branch σ ρ α))
  | within (count : Nat) (next : Except Fault (List ρ) → Work σ α)
  | after (w : Work σ α)

/-- A task with the pieces that it has started. -/
structure Task (σ ρ α : Type) where
  main : Main σ ρ α
  pieces : Gathering σ ρ := ⟨[], []⟩

/-- What has a turn: the task itself, or one of its running pieces. -/
inductive Part where
  | main
  | piece (index : Nat)
  deriving DecidableEq, Repr

namespace Task

/-- A task at its beginning. -/
def start (w : Work σ (Branch σ ρ α)) : Task σ ρ α := { main := .before w }

/-- A turn of the task itself. While it waits for its pieces nothing happens. -/
def mainTurn (x : Task σ ρ α) (s : σ) : Task σ ρ α × σ :=
  match x.main with
  | .before w =>
    match w.turn s with
    | (.done (.ok (.stop y)), s) => ({ x with main := .after (pure y) }, s)
    | (.done (.ok (.fork _ pieces next)), s) => (⟨.within pieces.length next, ⟨positioned pieces, []⟩⟩, s)
    | (.done (.error f), s) => ({ x with main := .after (throw f) }, s)
    | (w, s) => ({ x with main := .before w }, s)
  | .within count next =>
    match x.pieces.outcome? count with
    | some r => ({ x with main := .after ((next r).resume s).1 }, ((next r).resume s).2)
    | none => (x, s)
  | .after w => ({ x with main := .after (w.turn s).1 }, (w.turn s).2)

/-- A turn of a piece. -/
def pieceTurn (x : Task σ ρ α) (index : Nat) (s : σ) : Task σ ρ α × σ :=
  match x.pieces.running[index]? with
  | some (position, w) =>
    let rest := { x.pieces with running := x.pieces.running.eraseIdx index }
    ({ x with pieces := (rest.takeTurn position w s).1 }, (rest.takeTurn position w s).2)
  | none => (x, s)

def turn (x : Task σ ρ α) (s : σ) : Part → Task σ ρ α × σ
  | .main => x.mainTurn s
  | .piece index => x.pieceTurn index s

/-- The result of a task, once it is finished. -/
def result? (x : Task σ ρ α) : Option (Except Fault α) :=
  match x.main with
  | .after w => w.result?
  | _ => none

end Task

end Polyscan.Work
