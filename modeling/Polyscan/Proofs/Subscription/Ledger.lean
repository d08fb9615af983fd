import Mathlib.Data.List.Nodup
import Polyscan.Proofs.OrderedMap
import Polyscan.Event

/-!
Subscriptions by identity. A ledger numbers the subscriptions that were made and records those whose own
unsubscribe function was called; the others are live. An event should be delivered once to each live
subscription of its topic, in the order in which they were made.

`Bus.unsubscribe` compares listeners by equality, so it removes the oldest live subscription of an equal
listener. `audience_cancel_iff` says when that makes no difference to the audience.
-/
namespace Polyscan

/-- One subscription, identified by its number. -/
structure Subscription where
  number : Nat
  topic : Topic
  listener : String
  deriving DecidableEq, Repr

/-- A step of a bus: a subscription is made under a handle, the unsubscribe function of a handle is called, or
an event is emitted with an outcome. -/
inductive BusMove (ℓ : Type) where
  | subscribed (handle : String) (topic : Topic) (listener : String)
  | cancelled (handle : String)
  | emitted (event : Published ℓ) (outcome : Except Fault Unit)

/-- The subscriptions in the order in which they were made, those whose own unsubscribe function was called,
and the latest subscription under each handle. -/
structure Ledger where
  made : List Subscription := []
  cancelled : List Subscription := []
  named : List (String × Subscription) := []
  deriving DecidableEq, Repr

namespace Ledger

variable {ℓ : Type}

def subscribe (l : Ledger) (handle : String) (topic : Topic) (listener : String) : Ledger :=
  let s : Subscription := ⟨l.made.length, topic, listener⟩
  { l with made := l.made ++ [s], named := OrderedMap.put handle s l.named }

def cancel (l : Ledger) (s : Subscription) : Ledger := { l with cancelled := l.cancelled ++ [s] }

/-- The ledger after a step. There is no unsubscribe function for a handle that was never given. -/
def enter (l : Ledger) : BusMove ℓ → Ledger
  | .subscribed handle topic listener => l.subscribe handle topic listener
  | .cancelled handle => (OrderedMap.find handle l.named).elim l l.cancel
  | .emitted .. => l

def after (l : Ledger) (moves : List (BusMove ℓ)) : Ledger := moves.foldl enter l

/-- The subscriptions of a topic whose own unsubscribe function was not called. -/
def live (l : Ledger) (topic : Topic) : List Subscription :=
  l.made.filter fun s => s ∉ l.cancelled ∧ s.topic = topic

/-- The listeners of the live subscriptions of a topic. -/
def audience (l : Ledger) (topic : Topic) : List String := (l.live topic).map Subscription.listener

@[simp] theorem after_nil (l : Ledger) : l.after ([] : List (BusMove ℓ)) = l := rfl

@[simp] theorem after_cons (l : Ledger) (m : BusMove ℓ) (rest : List (BusMove ℓ)) :
    l.after (m :: rest) = (l.enter m).after rest := rfl

theorem after_append (l : Ledger) (ms ns : List (BusMove ℓ)) :
    l.after (ms ++ ns) = (l.after ms).after ns :=
  List.foldl_append

theorem mem_live {l : Ledger} {topic : Topic} {s : Subscription} :
    s ∈ l.live topic ↔ s ∈ l.made ∧ s ∉ l.cancelled ∧ s.topic = topic := by
  simp [live]

/-! ## Numbers -/

/-- Subscriptions are numbered in the order in which they were made, and no others are named or cancelled. -/
structure WellKept (l : Ledger) : Prop where
  numbered : l.made.map Subscription.number = List.range l.made.length
  cancelled : ∀ s ∈ l.cancelled, s ∈ l.made
  named : ∀ handle s, OrderedMap.find handle l.named = some s → s ∈ l.made

theorem wellKept_empty : WellKept {} where
  numbered := rfl
  cancelled := fun _ h => nomatch h
  named := fun _ _ h => nomatch h

theorem WellKept.number_lt {l : Ledger} (h : l.WellKept) {s : Subscription} (hs : s ∈ l.made) :
    s.number < l.made.length := by
  have hmem : s.number ∈ l.made.map Subscription.number := List.mem_map_of_mem hs
  rw [h.numbered] at hmem
  exact List.mem_range.mp hmem

theorem WellKept.nodup {l : Ledger} (h : l.WellKept) : l.made.Nodup := by
  have hnumbers : (l.made.map Subscription.number).Nodup := by
    rw [h.numbered]
    exact List.nodup_range
  exact hnumbers.of_map

theorem WellKept.subscribe {l : Ledger} (h : l.WellKept) (handle : String) (topic : Topic)
    (listener : String) : (l.subscribe handle topic listener).WellKept where
  numbered := by simp [Ledger.subscribe, h.numbered, List.range_succ]
  cancelled := fun s hs => List.mem_append_left _ (h.cancelled s hs)
  named := by
    intro name s hs
    simp only [Ledger.subscribe, OrderedMap.find_put] at hs ⊢
    split at hs
    · cases hs
      exact List.mem_append_right _ (List.mem_singleton_self _)
    · exact List.mem_append_left _ (h.named name s hs)

theorem WellKept.cancel {l : Ledger} (h : l.WellKept) {s : Subscription} (hs : s ∈ l.made) :
    (l.cancel s).WellKept where
  numbered := h.numbered
  cancelled := by
    intro r hr
    rcases List.mem_append.mp hr with hr | hr
    · exact h.cancelled r hr
    · rwa [List.mem_singleton.mp hr]
  named := h.named

/-! ## Audiences -/

theorem live_subscribe {l : Ledger} (h : l.WellKept) (handle : String) (topic u : Topic)
    (listener : String) :
    (l.subscribe handle topic listener).live u =
      l.live u ++ if topic = u then [⟨l.made.length, topic, listener⟩] else [] := by
  -- the new subscription has a new number, so it is not cancelled yet
  have hnew : (⟨l.made.length, topic, listener⟩ : Subscription) ∉ l.cancelled := fun hs =>
    Nat.lt_irrefl _ (h.number_lt (h.cancelled _ hs))
  unfold live Ledger.subscribe
  rw [List.filter_append, List.filter_singleton]
  simp [hnew]

theorem audience_subscribe {l : Ledger} (h : l.WellKept) (handle : String) (topic u : Topic)
    (listener : String) :
    (l.subscribe handle topic listener).audience u =
      l.audience u ++ if topic = u then [listener] else [] := by
  unfold audience
  rw [live_subscribe h, List.map_append]
  split <;> rfl

theorem live_cancel (l : Ledger) (s : Subscription) (topic : Topic) :
    (l.cancel s).live topic = (l.live topic).filter fun r => r ≠ s := by
  unfold live cancel
  rw [List.filter_filter]
  refine List.filter_congr fun r _ => ?_
  simp only [List.mem_append, List.mem_singleton, not_or, decide_eq_decide, ← Bool.decide_and]
  tauto

theorem audience_cancel_of_ne (l : Ledger) (s : Subscription) {topic : Topic} (h : s.topic ≠ topic) :
    (l.cancel s).audience topic = l.audience topic := by
  unfold audience
  rw [live_cancel, List.filter_eq_self.mpr]
  intro r hr
  have hrs : r ≠ s := fun he => h (he ▸ (mem_live.mp hr).2.2)
  exact decide_eq_true hrs

/-! ## Subscriptions of equal listeners -/

section Oldest

variable {σ κ : Type} [DecidableEq σ] [DecidableEq κ] (f : σ → κ) (s : σ)

private theorem filter_ne_of_nodup_cons {rest : List σ} (h : (s :: rest).Nodup) :
    (rest.filter fun r => !decide (r = s)) = rest := by
  rw [List.filter_eq_self]
  rintro r hr
  have hrs : r ≠ s := fun he => (List.nodup_cons.mp h).1 (he ▸ hr)
  simp [hrs]

/-- Removing `s` removes one entry from the front exactly if `s` is in the first run of entries with the same
image. -/
private theorem cons_map_filter_eq_iff {l : List σ} (hl : l.Nodup) :
    f s :: (l.filter fun r => r ≠ s).map f = l.map f ↔ s ∈ l.takeWhile fun r => f r = f s := by
  induction l with
  | nil => simp
  | cons b rest ih =>
    have hrest := ih (List.nodup_cons.mp hl).2
    by_cases hb : b = s
    · subst hb
      simp [filter_ne_of_nodup_cons b hl]
    · by_cases hf : f b = f s
      · simp [hb, hf, Ne.symm hb, ← hrest]
      · simp [hb, hf, Ne.symm hf]

/-- Removing `s` and erasing the first entry with its image agree exactly if there is no such entry, or `s` is
in the first run of such entries. -/
private theorem map_filter_eq_erase_iff {l : List σ} (hl : l.Nodup) :
    (l.filter fun r => r ≠ s).map f = (l.map f).erase (f s) ↔
      ((l.dropWhile fun r => f r ≠ f s).takeWhile fun r => f r = f s) = [] ∨
        s ∈ (l.dropWhile fun r => f r ≠ f s).takeWhile fun r => f r = f s := by
  induction l with
  | nil => simp
  | cons a rest ih =>
    have hrest := ih (List.nodup_cons.mp hl).2
    by_cases hf : f a = f s
    · by_cases ha : a = s
      · subst ha
        simp [filter_ne_of_nodup_cons a hl]
      · have hrun := cons_map_filter_eq_iff f s (List.nodup_cons.mp hl).2
        simp [hf, ha, Ne.symm ha, ← hrun]
    · have ha : a ≠ s := fun he => hf (he ▸ rfl)
      simpa [hf, ha, List.erase_cons] using hrest

end Oldest

/-- The first run of live subscriptions of the same listener to the same topic. -/
def oldest (l : Ledger) (s : Subscription) : List Subscription :=
  ((l.live s.topic).dropWhile fun r => r.listener ≠ s.listener).takeWhile fun r =>
    r.listener = s.listener

/-- The subscription is in the first run of live ones of its listener, or its listener has no live one. -/
def Frees (l : Ledger) (s : Subscription) : Prop := l.oldest s = [] ∨ s ∈ l.oldest s

/-- Cancelling a subscription and erasing the oldest one of its listener leave the same audience exactly if it
is in the first run of its listener. -/
theorem audience_cancel_iff {l : Ledger} (h : l.WellKept) (s : Subscription) :
    (l.cancel s).audience s.topic = (l.audience s.topic).erase s.listener ↔ l.Frees s := by
  unfold audience
  rw [live_cancel]
  exact map_filter_eq_erase_iff Subscription.listener s (h.nodup.filter _)

/-- The step does not call the unsubscribe function of a subscription outside the first run of its listener. -/
def Permits (l : Ledger) : BusMove ℓ → Prop
  | .cancelled handle => ∀ s, OrderedMap.find handle l.named = some s → l.Frees s
  | _ => True

/-- Every step is permitted at its time. -/
def Orderly : Ledger → List (BusMove ℓ) → Prop
  | _, [] => True
  | l, m :: rest => l.Permits m ∧ Orderly (l.enter m) rest

theorem orderly_append {l : Ledger} {ms ns : List (BusMove ℓ)} :
    l.Orderly (ms ++ ns) ↔ l.Orderly ms ∧ (l.after ms).Orderly ns := by
  induction ms generalizing l with
  | nil => simp [Orderly]
  | cons m rest ih => simp [Orderly, ih, and_assoc]

end Ledger

end Polyscan
