/-!
Finite maps that remember the order in which their keys arrived. Writing an existing key keeps its
place, so the entries are listed by first arrival and read back with the last value. A cache holds one
entry at most.
-/
namespace Polyscan

/-- A list of entries with pairwise distinct keys. -/
structure OrderedMap (κ ν : Type) where
  entries : List (κ × ν)
  distinct : (entries.map Prod.fst).Nodup
  deriving DecidableEq, Repr

namespace OrderedMap

variable {κ ν : Type}

def empty : OrderedMap κ ν := ⟨[], .nil⟩

instance : Inhabited (OrderedMap κ ν) := ⟨empty⟩

def keys (m : OrderedMap κ ν) : List κ := m.entries.map Prod.fst

def values (m : OrderedMap κ ν) : List ν := m.entries.map Prod.snd

def size (m : OrderedMap κ ν) : Nat := m.entries.length

/-- The same keys, with a function of what was under them. -/
def mapValues {μ : Type} (f : ν → μ) (m : OrderedMap κ ν) : OrderedMap κ μ where
  entries := m.entries.map fun e => (e.1, f e.2)
  distinct := by
    rw [List.map_map]
    exact m.distinct

theorem keys_nodup (m : OrderedMap κ ν) : m.keys.Nodup := m.distinct

@[simp] theorem keys_empty : (empty : OrderedMap κ ν).keys = [] := rfl

variable [DecidableEq κ]

/-- Writes one entry of a list: in place if the key is there, else at the end. -/
def put (k : κ) (v : ν) : List (κ × ν) → List (κ × ν)
  | [] => [(k, v)]
  | (a, w) :: rest => if a = k then (a, v) :: rest else (a, w) :: put k v rest

/-- The keys after a write: the same, or the new one at the end. -/
theorem map_fst_put (k : κ) (v : ν) (l : List (κ × ν)) :
    (put k v l).map Prod.fst =
      if k ∈ l.map Prod.fst then l.map Prod.fst else l.map Prod.fst ++ [k] := by
  induction l with
  | nil => simp [put]
  | cons e rest ih =>
    obtain ⟨a, w⟩ := e
    by_cases h : a = k
    · simp [put, h]
    · have h' : ¬ k = a := fun hk => h hk.symm
      simp only [put, if_neg h, List.map_cons, ih, List.mem_cons, h', false_or]
      split <;> simp

def insert (m : OrderedMap κ ν) (k : κ) (v : ν) : OrderedMap κ ν where
  entries := put k v m.entries
  distinct := by
    rw [map_fst_put]
    split
    · exact m.distinct
    · next h =>
      rw [List.nodup_append]
      refine ⟨m.distinct, by simp, ?_⟩
      intro a ha b hb hab
      simp only [List.mem_singleton] at hb
      exact h (hb ▸ hab ▸ ha)

/-- Reads the value under a key out of a list of entries. -/
def find (k : κ) : List (κ × ν) → Option ν
  | [] => none
  | (a, v) :: rest => if a = k then some v else find k rest

def get? (m : OrderedMap κ ν) (k : κ) : Option ν := find k m.entries

def contains (m : OrderedMap κ ν) (k : κ) : Bool := (m.get? k).isSome

/-- Applies a function to the value under a key, if there is one. -/
def adjust (m : OrderedMap κ ν) (k : κ) (f : ν → ν) : OrderedMap κ ν :=
  match m.get? k with
  | some v => m.insert k (f v)
  | none => m

/-- Writes the entries of a list from left to right. -/
def insertAll (m : OrderedMap κ ν) : List (κ × ν) → OrderedMap κ ν
  | [] => m
  | (k, v) :: rest => (m.insert k v).insertAll rest

def ofList (l : List (κ × ν)) : OrderedMap κ ν := empty.insertAll l

theorem keys_insert (m : OrderedMap κ ν) (k : κ) (v : ν) :
    (m.insert k v).keys = if k ∈ m.keys then m.keys else m.keys ++ [k] :=
  map_fst_put k v m.entries

theorem find_put (k k' : κ) (v : ν) (l : List (κ × ν)) :
    find k' (put k v l) = if k = k' then some v else find k' l := by
  induction l with
  | nil => simp [put, find]
  | cons e rest ih =>
    obtain ⟨a, w⟩ := e
    by_cases h : a = k
    · subst h
      by_cases h' : a = k' <;> simp [put, find, h']
    · rw [put, if_neg h, find, find]
      by_cases h' : a = k'
      · have hk : ¬ k = k' := fun hk => h (h'.trans hk.symm)
        rw [if_pos h', if_neg hk, if_pos h']
      · rw [if_neg h', ih, if_neg h']

theorem get?_insert (m : OrderedMap κ ν) (k k' : κ) (v : ν) :
    (m.insert k v).get? k' = if k = k' then some v else m.get? k' :=
  find_put k k' v m.entries

theorem find_isSome_iff (k : κ) (l : List (κ × ν)) :
    (find k l).isSome = true ↔ k ∈ l.map Prod.fst := by
  induction l with
  | nil => simp [find]
  | cons e rest ih =>
    obtain ⟨a, w⟩ := e
    by_cases h : a = k
    · simp [find, h]
    · have h' : ¬ k = a := fun hk => h hk.symm
      simpa [find, h, h'] using ih

theorem contains_iff (m : OrderedMap κ ν) (k : κ) : m.contains k = true ↔ k ∈ m.keys :=
  find_isSome_iff k m.entries

@[simp] theorem get?_empty (k : κ) : (empty : OrderedMap κ ν).get? k = none := rfl

end OrderedMap

/-- One entry at a time: a value, kept for the key it was made for. -/
structure KeyedCache (κ ν : Type) where
  held : Option (κ × ν) := none
  deriving Repr, Inhabited

namespace KeyedCache

variable {κ ν σ ε : Type} [DecidableEq κ]

/-- Gives the held value if it was made for this key, and else makes one and holds it. A value that
cannot be made leaves the held one in place. `make` reads and writes a state of its own. -/
def get (make : κ → σ → Except ε ν × σ) (c : KeyedCache κ ν) (k : κ) (s : σ) :
    Except ε ν × KeyedCache κ ν × σ :=
  let fresh :=
    match make k s with
    | (.ok v, s') => (.ok v, ⟨some (k, v)⟩, s')
    | (.error e, s') => (.error e, c, s')
  match c.held with
  | some (k', v) => if k' = k then (.ok v, c, s) else fresh
  | none => fresh

def clear (_ : KeyedCache κ ν) : KeyedCache κ ν := ⟨none⟩

end KeyedCache

end Polyscan
