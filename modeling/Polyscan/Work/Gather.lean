import Polyscan.OrderedMap
import Polyscan.Work.Basic

/-!
Pieces of work that are started together. They begin in the next round, and in every round each of them has
one turn in the order in which they were started. Their outcome is known as soon as one of them has failed,
but a failure does not stop the others.
-/
namespace Polyscan.Work

variable {σ α : Type}

/-- Pieces of work by position, and the results so far in the order in which they came. -/
structure Gathering (σ α : Type) where
  running : List (Nat × Work σ α)
  finished : List (Nat × Except Fault α)

namespace Gathering

/-- Gives a piece of work its turn; afterwards it is finished or runs on. -/
def takeTurn (g : Gathering σ α) (position : Nat) (w : Work σ α) (s : σ) : Gathering σ α × σ :=
  let (w, s) := w.turn s
  match w.result? with
  | some r => ({ g with finished := g.finished ++ [(position, r)] }, s)
  | none => ({ g with running := g.running ++ [(position, w)] }, s)

/-- One round, in which every piece has a turn. -/
def round (finished : List (Nat × Except Fault α)) :
    List (Nat × Work σ α) → σ → Gathering σ α × σ
  | running, s =>
    running.foldl (fun (g, s) (position, w) => g.takeTurn position w s) (⟨[], finished⟩, s)

/-- Finishes what still runs, one after another. -/
def inTurn (finished : List (Nat × Except Fault α)) :
    List (Nat × Work σ α) → Work σ (List (Nat × Except Fault α))
  | [] => pure finished
  | (position, w) :: rest => w.attempt.bind fun r => inTurn (finished ++ [(position, r)]) rest

/-- Goes on for a number of rounds; what is not finished by then is finished one after another. -/
def rounds : Nat → List (Nat × Work σ α) → List (Nat × Except Fault α) →
    Work σ (List (Nat × Except Fault α))
  | 0, running, finished => inTurn finished running
  | limit + 1, running, finished =>
    wait (fun _ => true) <| get fun s =>
      let (g, s) := round finished running s
      put s (if g.running.isEmpty then pure g.finished else rounds limit g.running g.finished)

/-- The first failure among results. -/
def failure? : List (Nat × Except Fault α) → Option Fault
  | [] => none
  | (_, .error f) :: _ => some f
  | (_, .ok _) :: rest => failure? rest

/-- The successful results, by position. -/
def successes : List (Nat × Except Fault α) → List (Nat × α)
  | [] => []
  | (position, .ok a) :: rest => (position, a) :: successes rest
  | (_, .error _) :: rest => successes rest

/-- The values at the positions below a number. -/
def inOrder (results : List (Nat × α)) (count : Nat) : List α :=
  (List.range count).filterMap fun position => OrderedMap.find position results

/-- The values of all results by position, or the first failure. -/
def together (results : List (Nat × Except Fault α)) (count : Nat) : Except Fault (List α) :=
  match failure? results with
  | some f => .error f
  | none => .ok (inOrder (successes results) count)

/-- The outcome of the pieces, once one of them has failed or all are finished. -/
def outcome? (g : Gathering σ α) (count : Nat) : Option (Except Fault (List α)) :=
  if (failure? g.finished).isSome || g.running.isEmpty then some (together g.finished count) else none

end Gathering

def positioned (works : List (Work σ α)) : List (Nat × Work σ α) :=
  works.mapIdx fun position w => (position, w)

/-- The results of pieces of work that are started together, in their order; the first failure is the failure
of all. Nothing runs beside, so pieces that go on after a failure are finished here. How they go on beside
later work is described by `Work.Task`. -/
def gather (limit : Nat) (works : List (Work σ α)) : Work σ (List α) :=
  (Gathering.rounds limit (positioned works) []).bind fun results =>
    done (Gathering.together results works.length)

/-- The outcomes of pieces of work that are started together, in their order. -/
def gatherAll (limit : Nat) (works : List (Work σ α)) : Work σ (List (Except Fault α)) :=
  (Gathering.rounds limit (positioned works) []).bind fun results =>
    pure (Gathering.inOrder results works.length)

end Polyscan.Work
