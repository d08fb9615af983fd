import Polyscan.Event

/-!
Subscriptions of listeners to topics, in the order in which they were made. Listeners are compared by
equality, so `unsubscribe` removes the first subscription of an equal listener.
-/
namespace Polyscan

structure Bus (κ : Type) where
  subscriptions : List (Topic × κ) := []
  deriving Repr

namespace Bus

variable {κ : Type}

instance : Inhabited (Bus κ) := ⟨{}⟩

def subscribe (b : Bus κ) (topic : Topic) (listener : κ) : Bus κ :=
  ⟨b.subscriptions ++ [(topic, listener)]⟩

/-- The listeners to a kind of event, first subscribed first. -/
def audience (b : Bus κ) (topic : Topic) : List κ :=
  (b.subscriptions.filter fun s => s.1 = topic).map Prod.snd

/-- Removes the first subscription of the listener to the topic, if there is one. -/
def unsubscribe [DecidableEq κ] (b : Bus κ) (topic : Topic) (listener : κ) : Bus κ :=
  ⟨b.subscriptions.erase (topic, listener)⟩

@[simp] theorem audience_subscribe (b : Bus κ) (t u : Topic) (k : κ) :
    (b.subscribe t k).audience u = b.audience u ++ if t = u then [k] else [] := by
  by_cases h : t = u <;> simp [audience, subscribe, h]

end Bus

end Polyscan
