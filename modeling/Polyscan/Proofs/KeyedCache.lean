import Mathlib.Data.List.Induction
import Polyscan.OrderedMap

/-!
Histories of `get` and `clear` on a cache, with changes by others of the state that the factory reads. A log
records every call of the factory. The cache holds the result of the last successful call since the last
`clear`, under the key of that call (`Serves.held`).
-/
namespace Polyscan.KeyedCache

variable {κ ν σ ε : Type}

/-! ## What happens -/

/-- An entry of the log: a call of the factory with its outcome, or a `clear`. -/
inductive Incident (κ ν ε : Type) where
  | called (key : κ) (answer : Except ε ν)
  | cleared

namespace Incident

/-- The contents of the cache after an entry. -/
def leaves : Incident κ ν ε → Option (κ × ν) → Option (κ × ν)
  | called k (.ok v), _ => some (k, v)
  | called _ (.error _), held => held
  | cleared, _ => none

/-- The key and the value of a successful call. -/
def made? : Incident κ ν ε → Option (κ × ν)
  | called k (.ok v) => some (k, v)
  | called _ (.error _) => none
  | cleared => none

end Incident

/-- The contents of the cache after a log, from the empty cache on. -/
def standing (log : List (Incident κ ν ε)) : Option (κ × ν) :=
  log.foldl (fun held i => i.leaves held) none

/-- The last successful call of the log, `clear` ignored. -/
def lastMade (log : List (Incident κ ν ε)) : Option (κ × ν) := log.reverse.findSome? Incident.made?

/-- A cache, the state that the factory reads, and the log so far. -/
structure Usage (κ ν σ ε : Type) where
  cache : KeyedCache κ ν := {}
  state : σ
  log : List (Incident κ ν ε) := []

/-- A step of a history. -/
inductive Act (κ σ : Type) where
  | get (k : κ)
  | clear
  | elsewhere (change : σ → σ)

/-- The factory with a log of its calls. -/
def recording (make : κ → σ → Except ε ν × σ) (k : κ) (s : σ × List (Incident κ ν ε)) :
    Except ε ν × σ × List (Incident κ ν ε) :=
  ((make k s.1).1, (make k s.1).2, s.2 ++ [.called k (make k s.1).1])

namespace Usage

variable [DecidableEq κ] (make : κ → σ → Except ε ν × σ)

def get (u : Usage κ ν σ ε) (k : κ) : Except ε ν × Usage κ ν σ ε :=
  let (r, cache, state, log) := u.cache.get (recording make) k (u.state, u.log)
  (r, { cache, state, log })

def clear (u : Usage κ ν σ ε) : Usage κ ν σ ε :=
  { u with cache := u.cache.clear, log := u.log ++ [.cleared] }

def elsewhere (u : Usage κ ν σ ε) (change : σ → σ) : Usage κ ν σ ε := { u with state := change u.state }

def step (u : Usage κ ν σ ε) : Act κ σ → Usage κ ν σ ε
  | .get k => (u.get make k).2
  | .clear => u.clear
  | .elsewhere change => u.elsewhere change

def play (u : Usage κ ν σ ε) (acts : List (Act κ σ)) : Usage κ ν σ ε := acts.foldl (step make) u

end Usage

/-! ## One request -/

variable {log : List (Incident κ ν ε)} {k : κ} {v : ν}

theorem standing_append (log : List (Incident κ ν ε)) (i : Incident κ ν ε) :
    standing (log ++ [i]) = i.leaves (standing log) := by
  rw [standing, List.foldl_append]
  rfl

theorem lastMade_append (log : List (Incident κ ν ε)) (i : Incident κ ν ε) :
    lastMade (log ++ [i]) = (i.made?).or (lastMade log) := by
  rw [lastMade, List.reverse_append, List.findSome?_append]
  cases hmade : i.made? <;> simp [hmade, lastMade]

/-- The contents of the cache were made by the last successful call. -/
theorem lastMade_of_standing (h : standing log = some (k, v)) : lastMade log = some (k, v) := by
  induction log using List.reverseRecOn with
  | nil => cases h
  | append_singleton log i ih =>
    rw [standing_append] at h
    rw [lastMade_append]
    rcases i with ⟨k', e | v'⟩ | _
    · exact ih h
    · exact congrArg some (Option.some.inj h)
    · cases h

/-- The cache holds a value for the key, or none. -/
theorem held_or_not (c : KeyedCache κ ν) (k : κ) :
    (∃ v, c.held = some (k, v)) ∨ ∀ v, c.held ≠ some (k, v) := by
  by_cases h : ∃ v, c.held = some (k, v)
  · exact .inl h
  · exact .inr (not_exists.mp h)

theorem not_held_iff (c : KeyedCache κ ν) (k : κ) :
    (∀ v, c.held ≠ some (k, v)) ↔ c.held = none ∨ ∃ k' v, c.held = some (k', v) ∧ k' ≠ k := by
  rcases c with ⟨_ | ⟨k', v⟩⟩
  · simp
  · simp [eq_comm]

section

variable [DecidableEq κ] {make : κ → σ → Except ε ν × σ} {c : KeyedCache κ ν} {s : σ}

theorem get_of_held (h : c.held = some (k, v)) : c.get make k s = (.ok v, c, s) := by
  rw [get, h]
  exact if_pos rfl

/-- `get` of a key that is not held calls the factory, and stores the value of a successful call. -/
theorem get_of_not_held (h : ∀ v, c.held ≠ some (k, v)) :
    c.get make k s =
      ((make k s).1, ⟨(Incident.called k (make k s).1).leaves c.held⟩, (make k s).2) := by
  rcases c with ⟨_ | ⟨k', v'⟩⟩
  · rw [get]
    rcases make k s with ⟨e | v, t⟩ <;> rfl
  · have hk : k' ≠ k := by
      rintro rfl
      exact h v' rfl
    simp only [get, if_neg hk]
    rcases make k s with ⟨e | v, t⟩ <;> rfl

namespace Usage

variable {u : Usage κ ν σ ε}

theorem get_of_held (h : u.cache.held = some (k, v)) : u.get make k = (.ok v, u) := by
  rw [get, KeyedCache.get_of_held h]

theorem get_of_not_held (h : ∀ v, u.cache.held ≠ some (k, v)) :
    u.get make k =
      ((make k u.state).1,
        { cache := ⟨(Incident.called k (make k u.state).1).leaves u.cache.held⟩
          state := (make k u.state).2
          log := u.log ++ [.called k (make k u.state).1] }) := by
  rw [get, KeyedCache.get_of_not_held h]
  rfl

/-! ## Every history -/

/-- The contents of the cache are those that the log leaves. -/
def Recorded (u : Usage κ ν σ ε) : Prop := u.cache.held = standing u.log

namespace Recorded

omit [DecidableEq κ] in
theorem clear (u : Usage κ ν σ ε) : u.clear.Recorded := (standing_append u.log .cleared).symm

variable (h : u.Recorded)

include h

theorem get (k : κ) : (u.get make k).2.Recorded := by
  rcases u.cache.held_or_not k with ⟨v, hheld⟩ | hnone
  · rw [get_of_held hheld]
    exact h
  · rw [get_of_not_held hnone]
    unfold Recorded
    rw [standing_append, ← h]

theorem step (act : Act κ σ) : (u.step make act).Recorded := by
  cases act with
  | get k => exact h.get k
  | clear => exact clear u
  | elsewhere change => exact h

theorem play (acts : List (Act κ σ)) : (u.play make acts).Recorded := by
  induction acts generalizing u with
  | nil => exact h
  | cons act rest ih => exact ih (h.step act)

/-- The value that `get` returns was made by the last successful call, for the same key. -/
theorem latest (hgiven : (u.get make k).1 = .ok v) : lastMade (u.get make k).2.log = some (k, v) := by
  have hafter : (u.get make k).2.Recorded := h.get k
  refine lastMade_of_standing (hafter.symm.trans ?_)
  rcases u.cache.held_or_not k with ⟨v', hheld⟩ | hnone
  · rw [get_of_held hheld] at hgiven ⊢
    rw [hheld, Except.ok.inj hgiven]
  · rw [get_of_not_held hnone] at hgiven ⊢
    rw [hgiven]
    rfl

end Recorded

/-- How `get` answers after a history, and when it calls the factory. -/
structure Serves (make : κ → σ → Except ε ν × σ) (u : Usage κ ν σ ε) : Prop where
  /-- The contents are those of the last successful call since the last `clear`. -/
  held : u.cache.held = standing u.log
  /-- The factory is called unless the cache holds a value for the key. -/
  called_iff : ∀ k, (u.get make k).2.log ≠ u.log ↔
    u.cache.held = none ∨ ∃ k' v, u.cache.held = some (k', v) ∧ k' ≠ k
  /-- If it is not called, the held value is returned and the state is unchanged. -/
  spared : ∀ k v, u.cache.held = some (k, v) → u.get make k = (.ok v, u)
  /-- If it is called, then once, with the key, and its outcome is returned. -/
  asked : ∀ k, (u.get make k).2.log ≠ u.log →
    (u.get make k).2.log = u.log ++ [.called k (u.get make k).1] ∧
      ((u.get make k).1, (u.get make k).2.state) = make k u.state
  latest : ∀ k v, (u.get make k).1 = .ok v → lastMade (u.get make k).2.log = some (k, v)
  /-- A failed call leaves the contents unchanged. -/
  failed : ∀ k e, (u.get make k).1 = .error e → (u.get make k).2.cache = u.cache
  /-- A later `get` of the held key returns the held value without a call. -/
  kept : ∀ k e k' v change, (u.get make k).1 = .error e → u.cache.held = some (k', v) →
    ((u.get make k).2.elsewhere change).get make k' = (.ok v, (u.get make k).2.elsewhere change)
  /-- The first `get` after `clear` calls the factory. -/
  cleared : ∀ k change, ((u.clear.elsewhere change).get make k).2.log =
    u.log ++ [.cleared, .called k ((u.clear.elsewhere change).get make k).1]

theorem log_ne_iff (u : Usage κ ν σ ε) (k : κ) :
    (u.get make k).2.log ≠ u.log ↔ ∀ v, u.cache.held ≠ some (k, v) := by
  rcases u.cache.held_or_not k with ⟨v, hheld⟩ | hnone
  · rw [get_of_held hheld]
    simp [hheld]
  · rw [get_of_not_held hnone]
    simp [hnone]

theorem cache_of_failed {e : ε} (hfailed : (u.get make k).1 = .error e) : (u.get make k).2.cache = u.cache := by
  rcases u.cache.held_or_not k with ⟨v, hheld⟩ | hnone
  · rw [get_of_held hheld]
  · rw [get_of_not_held hnone] at hfailed ⊢
    rw [hfailed]
    rfl

theorem Recorded.serves (h : u.Recorded) : u.Serves make where
  held := h
  called_iff k := (log_ne_iff u k).trans (not_held_iff u.cache k)
  spared k v hheld := get_of_held hheld
  asked k hcalled := by
    rw [get_of_not_held ((log_ne_iff u k).mp hcalled)]
    exact ⟨rfl, rfl⟩
  latest k v hgiven := h.latest hgiven
  failed k e hfailed := cache_of_failed hfailed
  kept k e k' v change hfailed hheld := get_of_held ((congrArg held (cache_of_failed hfailed)).trans hheld)
  cleared k change := by
    have hnone : ∀ v, (u.clear.elsewhere change).cache.held ≠ some (k, v) := fun v => nofun
    rw [get_of_not_held hnone]
    exact List.append_assoc _ _ _

/-- `get` after every history of `get`, `clear` and changes by others. -/
theorem serves_play (make : κ → σ → Except ε ν × σ) (s : σ) (acts : List (Act κ σ)) :
    (play make { state := s } acts).Serves make := by
  have hempty : Recorded ({ state := s } : Usage κ ν σ ε) := rfl
  exact (hempty.play acts).serves

example :
    (play (fun k n => if k = 0 then (.error (), n) else (.ok n, n + 1)) { state := 5 }
      [.get 1, .get 0, .get 1, .get 2, .clear, .get 2] : Usage Nat Nat Nat Unit).cache.held = some (2, 7) := rfl

end Usage

end

end Polyscan.KeyedCache
