import Polyscan.Work.Basic

/-!
A shared value that is made on demand. A caller that finds it missing takes the lock and looks again, so there
is one maker at a time and the value is made once. If the maker fails, the value is missing and the next
caller tries again.
-/
namespace Polyscan

structure Once (ν : Type) where
  value : Option ν := none
  locked : Bool := false
  deriving Repr, Inhabited

namespace Once

variable {σ ν : Type}

/-- Where in a state a shared value and its lock are. -/
structure Spot (σ ν : Type) where
  look : σ → Once ν
  store : Once ν → σ → σ

namespace Spot

def isFree (spot : Spot σ ν) (s : σ) : Bool := !(spot.look s).locked

def lock (spot : Spot σ ν) (s : σ) : σ := spot.store { spot.look s with locked := true } s

def unlock (spot : Spot σ ν) (s : σ) : σ := spot.store { spot.look s with locked := false } s

def keep (spot : Spot σ ν) (v : ν) (s : σ) : σ := spot.store { spot.look s with value := some v } s

end Spot

/-- The value if it is there, and else the result of other work. -/
def orFrom (spot : Spot σ ν) (other : Work σ ν) : Work σ ν :=
  .get fun s =>
    match (spot.look s).value with
    | some v => pure v
    | none => other

/-- Makes the value and keeps it. -/
def fill (spot : Spot σ ν) (make : Work σ ν) : Work σ ν := do
  let v ← make
  Work.get fun s => .put (spot.keep v s) (pure v)

/-- The shared value, made if it is missing. -/
def obtain (spot : Spot σ ν) (make : Work σ ν) : Work σ ν :=
  orFrom spot do
    Work.acquire spot.isFree spot.lock
    (orFrom spot (fill spot make)).ensuring spot.unlock

end Once

end Polyscan
