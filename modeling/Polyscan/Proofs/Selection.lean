import Polyscan.Proofs.OrderedMap
import Polyscan.Selection

/-!
`Selection.ofList`: every rule is filed under its own engine and name, and no engine is empty. `only` keeps
the group of an engine.
-/
namespace Polyscan.Selection

/-- Every rule is filed under its engine and name, and every engine has a rule. -/
structure Filed (s : Selection) : Prop where
  rule : ∀ engine name r, s.find? engine name = some r → r.engine = engine ∧ r.name = name
  nonempty : ∀ engine ∈ s.engineNames, s.rulesFor engine ≠ []

theorem rulesByName_insert (s : Selection) (r : Rule) (engine : String) :
    (s.insert r).rulesByName engine =
      if r.engine = engine then (s.rulesByName engine).insert r.name r else s.rulesByName engine := by
  unfold rulesByName insert
  rw [OrderedMap.get?_insert]
  by_cases h : r.engine = engine
  · subst h
    simp [rulesByName]
  · simp [h]

theorem engineNames_insert (s : Selection) (r : Rule) :
    (s.insert r).engineNames =
      if r.engine ∈ s.engineNames then s.engineNames else s.engineNames ++ [r.engine] :=
  OrderedMap.keys_insert ..

theorem find?_insert (s : Selection) (r : Rule) (engine name : String) :
    (s.insert r).find? engine name =
      if r.engine = engine ∧ r.name = name then some r else s.find? engine name := by
  unfold find?
  rw [rulesByName_insert]
  by_cases h : r.engine = engine
  · simp only [h, if_true, true_and, OrderedMap.get?_insert]
  · simp [h]

theorem Filed.empty : Filed empty where
  rule engine name r h := by cases h
  nonempty engine h := by cases h

theorem Filed.insert {s : Selection} (h : s.Filed) (r : Rule) : (s.insert r).Filed where
  rule engine name found hf := by
    rw [find?_insert] at hf
    split at hf
    · next hr =>
      cases hf
      exact hr
    · exact h.rule engine name found hf
  nonempty engine he := by
    unfold rulesFor
    rw [rulesByName_insert]
    by_cases hr : r.engine = engine
    · rw [if_pos hr]
      intro hnil
      have hmem : r ∈ ((s.rulesByName engine).insert r.name r).values :=
        OrderedMap.mem_values_of_get? (by rw [OrderedMap.get?_insert, if_pos rfl])
      rw [hnil] at hmem
      cases hmem
    · rw [if_neg hr]
      apply h.nonempty engine
      rw [engineNames_insert] at he
      split at he
      · exact he
      · rcases List.mem_append.mp he with he | he
        · exact he
        · exact absurd (List.mem_singleton.mp he).symm hr

theorem Filed.foldl_insert {s : Selection} (h : s.Filed) (rules : List Rule) :
    (rules.foldl Selection.insert s).Filed := by
  induction rules generalizing s with
  | nil => exact h
  | cons r rest ih => exact ih (h.insert r)

theorem filed_ofList (rules : List Rule) : (ofList rules).Filed :=
  Filed.empty.foldl_insert rules

theorem ofList_snoc (rules : List Rule) (r : Rule) : ofList (rules ++ [r]) = (ofList rules).insert r :=
  List.foldl_append

/-- `find?` gives rules of the engine. -/
theorem mem_rulesFor_of_find? {s : Selection} {engine name : String} {r : Rule}
    (h : s.find? engine name = some r) : r ∈ s.rulesFor engine :=
  OrderedMap.mem_values_of_get? h

/-- The rules of an engine are found under their names. -/
theorem Filed.find?_of_mem_rulesFor {s : Selection} (h : s.Filed) {engine : String} {r : Rule}
    (hr : r ∈ s.rulesFor engine) : r.engine = engine ∧ s.find? engine r.name = some r := by
  obtain ⟨⟨name, r'⟩, hentry, rfl⟩ := List.mem_map.mp hr
  have hfound : s.find? engine name = some r' := OrderedMap.get?_eq_some_iff.mpr hentry
  obtain ⟨hengine, hname⟩ := h.rule engine name r' hfound
  exact ⟨hengine, hname ▸ hfound⟩

theorem mem_of_find?_foldl {rules : List Rule} {s : Selection} {engine name : String} {r : Rule}
    (h : (rules.foldl insert s).find? engine name = some r) : r ∈ rules ∨ s.find? engine name = some r := by
  induction rules generalizing s with
  | nil => exact .inr h
  | cons x rest ih =>
    rcases ih h with h | h
    · exact .inl (List.mem_cons_of_mem x h)
    · rw [find?_insert] at h
      split at h
      · cases h
        exact .inl List.mem_cons_self
      · exact .inr h

/-- A selection has only the rules that it was built from. -/
theorem mem_of_mem_rulesFor {rules : List Rule} {engine : String} {r : Rule}
    (h : r ∈ (ofList rules).rulesFor engine) : r ∈ rules ∧ r.engine = engine := by
  obtain ⟨hengine, hfound⟩ := (filed_ofList rules).find?_of_mem_rulesFor h
  refine ⟨(mem_of_find?_foldl hfound).resolve_right ?_, hengine⟩
  intro hnone
  cases hnone

theorem filed_select (rules : List Rule) (selectors : List String) : (select rules selectors).Filed :=
  filed_ofList _

/-- `select` adds no rules. -/
theorem mem_of_mem_select {rules : List Rule} {selectors : List String} {engine : String} {r : Rule}
    (h : r ∈ (select rules selectors).rulesFor engine) : r ∈ rules ∧ r.engine = engine := by
  obtain ⟨hmem, hengine⟩ := mem_of_mem_rulesFor h
  exact ⟨(List.mem_filter.mp hmem).1, hengine⟩

/-! ## One engine alone -/

/-- Insertion of the rules of one engine gives one group. -/
theorem groups_foldl_insert {engine : String} (entries : List (String × Rule)) (s : Selection)
    (done : OrderedMap String Rule) (hs : s.groups.entries = [(engine, done)])
    (hnodup : ((done.entries ++ entries).map Prod.fst).Nodup)
    (hrules : ∀ x ∈ entries, x.2.engine = engine ∧ x.2.name = x.1) :
    ∃ all : OrderedMap String Rule, all.entries = done.entries ++ entries ∧
      ((entries.map Prod.snd).foldl insert s).groups.entries = [(engine, all)] := by
  induction entries generalizing s done with
  | nil => exact ⟨done, by simp, hs⟩
  | cons x rest ih =>
    obtain ⟨name, r⟩ := x
    obtain ⟨he, hn⟩ := hrules (name, r) (by simp)
    simp only at he hn
    have hfresh : r.name ∉ done.keys := by
      rw [hn]
      rw [List.map_append, List.nodup_append] at hnodup
      intro hmem
      exact hnodup.2.2 name hmem name (by simp) rfl
    have hbefore : s.rulesByName engine = done := by
      simp [rulesByName, OrderedMap.get?, hs, OrderedMap.find]
    have hafter : (s.insert r).groups.entries = [(engine, done.insert r.name r)] := by
      simp [insert, he, hbefore, OrderedMap.insert, hs, OrderedMap.put]
    have hentries : (done.insert r.name r).entries = done.entries ++ [(name, r)] := by
      rw [OrderedMap.entries_insert r hfresh, hn]
    obtain ⟨all, hall, hgroups⟩ := ih (s.insert r) (done.insert r.name r) hafter
      (by rw [hentries]; simpa using hnodup) (fun x hx => hrules x (by simp [hx]))
    exact ⟨all, by rw [hall, hentries]; simp, hgroups⟩

variable {s : Selection} {engine : String}

/-- `only` keeps one group. -/
theorem only_entries (h : s.Filed) (he : engine ∈ s.engineNames) :
    (s.only engine).groups.entries = [(engine, s.rulesByName engine)] := by
  have hrule : ∀ x ∈ (s.rulesByName engine).entries, x.2.engine = engine ∧ x.2.name = x.1 :=
    fun x hx => h.rule engine x.1 x.2 (OrderedMap.get?_eq_some_iff.mpr hx)
  have hnodup := (s.rulesByName engine).distinct
  unfold only ofList rulesFor OrderedMap.values
  cases hentries : (s.rulesByName engine).entries with
  | nil =>
    have hnil : s.rulesFor engine = [] := by simp [rulesFor, OrderedMap.values, hentries]
    exact absurd hnil (h.nonempty engine he)
  | cons x rest =>
    rw [hentries] at hrule hnodup
    obtain ⟨name, r⟩ := x
    obtain ⟨hre, hrn⟩ := hrule (name, r) (by simp)
    simp only at hre hrn
    -- the first rule creates the group, the others are added to it
    have hfirst : (empty.insert r).groups.entries = [(engine, OrderedMap.empty.insert name r)] := by
      simp [insert, rulesByName, empty, OrderedMap.insert, OrderedMap.empty, OrderedMap.put,
        OrderedMap.get?, OrderedMap.find, hre, hrn]
    have hopen : (OrderedMap.empty.insert name r).entries = [(name, r)] := rfl
    obtain ⟨all, hall, hgroups⟩ := groups_foldl_insert rest (empty.insert r)
      (OrderedMap.empty.insert name r) hfirst (by rw [hopen]; simpa using hnodup)
      (fun x hx => hrule x (by simp [hx]))
    rw [List.map_cons, List.foldl_cons, hgroups]
    have heq : all = s.rulesByName engine :=
      OrderedMap.ext_entries (by rw [hall, hopen, hentries, List.singleton_append])
    rw [heq]

theorem engineNames_only (h : s.Filed) (he : engine ∈ s.engineNames) :
    (s.only engine).engineNames = [engine] := by
  simp [engineNames, OrderedMap.keys, only_entries h he]

/-- `only` keeps the rules of its engine. -/
theorem rulesByName_only (h : s.Filed) (he : engine ∈ s.engineNames) :
    (s.only engine).rulesByName engine = s.rulesByName engine := by
  simp [rulesByName, OrderedMap.get?, only_entries h he, OrderedMap.find]

end Polyscan.Selection
