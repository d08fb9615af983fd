import Polyscan.Bus.Basic

/-!
A bus whose listeners act on it during an emission. An emission calls the listeners that were subscribed when
it began, up to the first one that raises.
-/
namespace Polyscan

/-- An act on a bus. The reaction of a listener is the one of its first subscription; a handle names a
subscription. -/
inductive Act (ℓ : Type) where
  | subscribe (handle listener topic : String) (reaction : Option (Act ℓ))
  | unsubscribe (handle : String)
  | fail (fault : Fault)
  | publish (event : Event ℓ)

instance {ℓ : Type} : Inhabited (Act ℓ) := ⟨.unsubscribe ""⟩

/-- A bus with its clock, the handles of its subscriptions, the reactions of its listeners and the calls that
they received. -/
structure Scene (ℓ : Type) where
  bus : Bus String := {}
  handles : List (String × (Topic × String)) := []
  reactions : List (String × Option (Act ℓ)) := []
  clock : Nat := 0
  calls : List (String × Published ℓ) := []

namespace Scene

variable {ℓ : Type}

instance : Inhabited (Scene ℓ) := ⟨{}⟩

/-- An effect on a scene that may fail; what happened before a failure stays. -/
abbrev Effect (ℓ : Type) := Scene ℓ → Except Fault Unit × Scene ℓ

/-- Calls listeners one after another, up to the first that raises. -/
def deliverAll (deliver : String → Effect ℓ) : List String → Effect ℓ
  | [], s => (.ok (), s)
  | k :: rest, s =>
    match deliver k s with
    | (.ok (), s') => deliverAll deliver rest s'
    | (.error f, s') => (.error f, s')

def record (s : Scene ℓ) (listener : String) (p : Published ℓ) : Scene ℓ :=
  { s with calls := s.calls ++ [(listener, p)] }

def reaction? (s : Scene ℓ) (listener : String) : Option (Act ℓ) :=
  (OrderedMap.find listener s.reactions).getD none

/-- Sets the reaction of a new listener. -/
def introduce (s : Scene ℓ) (listener : String) (reaction : Option (Act ℓ)) : Scene ℓ :=
  if (OrderedMap.find listener s.reactions).isSome then s
  else { s with reactions := s.reactions ++ [(listener, reaction)] }

/-- The fault of emissions that are nested too deep. -/
def endless : Fault := .raised .runtime "maximum recursion depth exceeded"

/-- Performs an act; emissions are nested at most `depth` levels deep. -/
def perform : Nat → Act ℓ → Effect ℓ
  | _, .subscribe handle listener topic reaction, s =>
    let s := s.introduce listener reaction
    match Topic.ofName topic with
    | .error f => (.error f, s)
    | .ok t =>
      (.ok (), { s with
        bus := s.bus.subscribe t listener
        handles := OrderedMap.put handle (t, listener) s.handles })
  | _, .unsubscribe handle, s =>
    match OrderedMap.find handle s.handles with
    | none => (.error (.unknown handle), s)
    | some (t, listener) => (.ok (), { s with bus := s.bus.unsubscribe t listener })
  | _, .fail f, s => (.error f, s)
  | 0, .publish _, s => (.error endless, s)
  | depth + 1, .publish event, s =>
    let p : Published ℓ := ⟨s.clock, event⟩
    let s := { s with clock := s.clock + 1 }
    deliverAll
      (fun k s =>
        let s := s.record k p
        match s.reaction? k with
        | some a => perform depth a s
        | none => (.ok (), s))
      (s.bus.audience event.topic) s

end Scene

end Polyscan
