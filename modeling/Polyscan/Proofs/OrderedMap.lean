import Mathlib.Data.List.Basic
import Mathlib.Data.List.Induction
import Polyscan.OrderedMap

/-! Ordered maps as lists of entries. New keys go to the end, and known keys keep their place. -/
namespace Polyscan.OrderedMap

variable {κ ν : Type}

theorem ext_entries {m n : OrderedMap κ ν} (h : m.entries = n.entries) : m = n := by
  cases m
  cases n
  simp_all

theorem keys_mapValues {μ : Type} (f : ν → μ) (m : OrderedMap κ ν) : (m.mapValues f).keys = m.keys := by
  unfold keys mapValues
  rw [List.map_map]
  rfl

theorem values_mapValues {μ : Type} (f : ν → μ) (m : OrderedMap κ ν) :
    (m.mapValues f).values = m.values.map f := by
  unfold values mapValues
  rw [List.map_map, List.map_map]
  rfl

variable [DecidableEq κ]

/-- The keys after one more insertion. -/
theorem eraseDups_snoc (l : List κ) (k : κ) :
    (l ++ [k]).eraseDups = if k ∈ l then l.eraseDups else l.eraseDups ++ [k] := by
  rw [List.eraseDups_append, List.cons_removeAll]
  by_cases h : k ∈ l
  · simp [h]
  · simp [h, List.eraseDups_cons]

theorem nodup_eraseDups (l : List κ) : l.eraseDups.Nodup := by
  induction l using List.reverseRecOn with
  | nil => exact List.nodup_nil
  | append_singleton l k ih =>
    rw [eraseDups_snoc]
    split
    · exact ih
    · next hk =>
      rw [List.nodup_append]
      refine ⟨ih, List.pairwise_singleton _ k, fun a ha b hb hab => hk ?_⟩
      rw [← List.mem_singleton.mp hb, ← hab]
      exact List.mem_eraseDups.mp ha

theorem eraseDups_of_nodup {l : List κ} (h : l.Nodup) : l.eraseDups = l := by
  induction l using List.reverseRecOn with
  | nil => rfl
  | append_singleton l k ih =>
    obtain ⟨hl, -, hk⟩ := List.nodup_append.mp h
    rw [eraseDups_snoc, if_neg fun hmem => hk k hmem k (List.mem_singleton_self k) rfl, ih hl]

theorem mem_of_find {k : κ} {v : ν} {l : List (κ × ν)} (h : find k l = some v) : (k, v) ∈ l := by
  induction l with
  | nil => cases h
  | cons e rest ih =>
    obtain ⟨a, w⟩ := e
    by_cases ha : a = k
    · simp only [find, ha, if_true, Option.some.injEq] at h
      simp [ha, h]
    · rw [find, if_neg ha] at h
      exact List.mem_cons_of_mem _ (ih h)

theorem find_of_mem {k : κ} {v : ν} {l : List (κ × ν)} (hl : (l.map Prod.fst).Nodup)
    (h : (k, v) ∈ l) : find k l = some v := by
  induction l with
  | nil => cases h
  | cons e rest ih =>
    obtain ⟨a, w⟩ := e
    rw [List.map_cons, List.nodup_cons] at hl
    rcases List.mem_cons.mp h with heq | hmem
    · cases heq
      simp [find]
    · have ha : a ≠ k := by
        rintro rfl
        exact hl.1 (List.mem_map.mpr ⟨_, hmem, rfl⟩)
      rw [find, if_neg ha]
      exact ih hl.2 hmem

theorem get?_eq_some_iff {m : OrderedMap κ ν} {k : κ} {v : ν} :
    m.get? k = some v ↔ (k, v) ∈ m.entries :=
  ⟨mem_of_find, find_of_mem m.distinct⟩

theorem mem_keys_iff {m : OrderedMap κ ν} {k : κ} : k ∈ m.keys ↔ ∃ v, m.get? k = some v := by
  rw [← contains_iff, contains, Option.isSome_iff_exists]

theorem get?_eq_none_iff {m : OrderedMap κ ν} {k : κ} : m.get? k = none ↔ k ∉ m.keys := by
  rw [← contains_iff, contains]
  cases m.get? k <;> simp

theorem mem_values_of_get? {m : OrderedMap κ ν} {k : κ} {v : ν} (h : m.get? k = some v) :
    v ∈ m.values :=
  List.mem_map.mpr ⟨_, get?_eq_some_iff.mp h, rfl⟩

theorem find_append (k : κ) (l l' : List (κ × ν)) : find k (l ++ l') = (find k l).or (find k l') := by
  induction l with
  | nil => rfl
  | cons e rest ih =>
    obtain ⟨a, w⟩ := e
    by_cases ha : a = k <;> simp [find, ha, ih]

/-- Entries with other keys are unchanged. -/
theorem put_append {k : κ} (v : ν) {l : List (κ × ν)} (l' : List (κ × ν)) (h : k ∉ l.map Prod.fst) :
    put k v (l ++ l') = l ++ put k v l' := by
  induction l with
  | nil => rfl
  | cons e rest ih =>
    obtain ⟨a, w⟩ := e
    rw [List.map_cons, List.mem_cons, not_or] at h
    rw [List.cons_append, put, if_neg (Ne.symm h.1), ih h.2, List.cons_append]

theorem put_eq_append {k : κ} {v : ν} {l : List (κ × ν)} (h : k ∉ l.map Prod.fst) :
    put k v l = l ++ [(k, v)] := by
  have hput := put_append v [] h
  rwa [List.append_nil] at hput

/-- A new key goes to the end. -/
theorem entries_insert {m : OrderedMap κ ν} {k : κ} (v : ν) (h : k ∉ m.keys) :
    (m.insert k v).entries = m.entries ++ [(k, v)] :=
  put_eq_append h

theorem put_put (k : κ) (v w : ν) (l : List (κ × ν)) : put k w (put k v l) = put k w l := by
  induction l with
  | nil => simp [put]
  | cons e rest ih =>
    obtain ⟨a, u⟩ := e
    by_cases ha : a = k
    · simp [put, ha]
    · simp [put, ha, ih]

/-- `adjust` of the key that was just inserted. -/
theorem adjust_insert (m : OrderedMap κ ν) (k : κ) (v : ν) (f : ν → ν) :
    (m.insert k v).adjust k f = m.insert k (f v) := by
  unfold adjust
  rw [get?_insert, if_pos rfl]
  exact ext_entries (put_put k v (f v) m.entries)

/-- `get?` after `adjust`. -/
theorem get?_adjust (m : OrderedMap κ ν) (k k' : κ) (f : ν → ν) :
    (m.adjust k f).get? k' = if k = k' then (m.get? k').map f else m.get? k' := by
  unfold adjust
  cases hm : m.get? k with
  | none =>
    by_cases hk : k = k'
    · subst hk
      simp [hm]
    · rw [if_neg hk]
  | some v =>
    rw [get?_insert]
    by_cases hk : k = k'
    · subst hk
      simp [hm]
    · rw [if_neg hk, if_neg hk]

theorem keys_adjust (m : OrderedMap κ ν) (k : κ) (f : ν → ν) : (m.adjust k f).keys = m.keys := by
  unfold adjust
  cases hm : m.get? k with
  | none => rfl
  | some v => rw [keys_insert, if_pos (mem_keys_iff.mpr ⟨v, hm⟩)]

/-- The values are what `get?` gives for the keys. -/
theorem values_eq_filterMap (m : OrderedMap κ ν) : m.values = m.keys.filterMap m.get? := by
  unfold values keys
  rw [List.filterMap_map, ← List.filterMap_eq_map]
  exact List.filterMap_congr fun e he => (get?_eq_some_iff.mpr he).symm

/-- The keys of the entries with a property are the keys whose value has it. -/
theorem map_fst_filter (m : OrderedMap κ ν) (p : ν → Bool) :
    (m.entries.filter fun e => p e.2).map Prod.fst = m.keys.filter fun k => (m.get? k).any p := by
  unfold keys
  rw [List.filter_map]
  refine congrArg (List.map Prod.fst) (List.filter_congr fun e he => ?_)
  rw [Function.comp_apply, get?_eq_some_iff.mpr he, Option.any_some]

theorem get?_mapValues {μ : Type} (f : ν → μ) (m : OrderedMap κ ν) (k : κ) :
    (m.mapValues f).get? k = (m.get? k).map f := by
  show find k (m.entries.map fun e => (e.1, f e.2)) = (find k m.entries).map f
  induction m.entries with
  | nil => rfl
  | cons e rest ih =>
    obtain ⟨a, v⟩ := e
    rw [List.map_cons, find, find, ih]
    split <;> rfl

end Polyscan.OrderedMap
