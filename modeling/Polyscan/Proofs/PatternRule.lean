import Polyscan.PatternRule

/-!
The rules of `PatternRule.build`. All accepted rules have different names, and each reports a group that its
pattern has.
-/
namespace Polyscan.PatternRule

/-- The pattern has the group that the rule reports. -/
def Reportable (r : PatternRule) : Prop := 0 ≤ r.group ∧ r.group ≤ (r.pattern.groups : Int)

/-- Rules with different names whose groups exist. -/
structure Coherent (rules : List PatternRule) : Prop where
  names : (rules.map PatternRule.name).Nodup
  groups : ∀ r ∈ rules, r.Reportable

/-- A custom rule has the name of its declaration and reports group 0. -/
theorem ofDeclaration_eq_ok {name : String} {declared : Json} {r : PatternRule}
    (h : ofDeclaration name declared = .ok r) : r.name = name ∧ r.group = 0 := by
  unfold ofDeclaration at h
  cases hread : (Schema.customRule declared).orFault "CustomRuleConfig" with
  | error f =>
    rw [hread] at h
    cases h
  | ok c =>
    simp only [hread, bind, Except.bind] at h
    cases hcompiled : Pattern.compile Pattern.ruleFlags c.regex with
    | error problem =>
      rw [hcompiled] at h
      cases h
    | ok pattern =>
      rw [hcompiled] at h
      cases h
      exact ⟨rfl, rfl⟩

/-- Every pattern has group 0. -/
theorem Reportable.of_group_eq_zero {r : PatternRule} (h : r.group = 0) : r.Reportable := by
  unfold Reportable
  rw [h]
  exact ⟨Int.le_refl 0, Int.natCast_nonneg r.pattern.groups⟩

theorem Coherent.snoc {rules : List PatternRule} {r : PatternRule} (h : Coherent rules)
    (hnew : ∀ x ∈ rules, x.name ≠ r.name) (hr : r.Reportable) : Coherent (rules ++ [r]) where
  names := by
    rw [List.map_append, List.nodup_append]
    refine ⟨h.names, by simp, ?_⟩
    intro name hname name' hname'
    obtain ⟨x, hx, rfl⟩ := List.mem_map.mp hname
    rw [List.map_singleton, List.mem_singleton] at hname'
    rw [hname']
    exact hnew x hx
  groups x hx := by
    rcases List.mem_append.mp hx with hx | hx
    · exact h.groups x hx
    · rw [List.mem_singleton.mp hx]
      exact hr

/-- A declaration adds a rule under a new name. -/
theorem declare_cons_eq_ok {rules all : List PatternRule} {name : String} {declared : Json}
    {rest : List (String × Json)} (hall : declare rules ((name, declared) :: rest) = .ok all) :
    (∀ x ∈ rules, x.name ≠ name) ∧
      ∃ r, ofDeclaration name declared = .ok r ∧ declare (rules ++ [r]) rest = .ok all := by
  unfold declare at hall
  by_cases hclash : rules.any (·.name = name) = true
  · rw [if_pos hclash] at hall
    cases hall
  · rw [if_neg hclash] at hall
    refine ⟨fun x hx hname => hclash (List.any_eq_true.mpr ⟨x, hx, by simpa using hname⟩), ?_⟩
    cases hread : ofDeclaration name declared with
    | error f =>
      rw [hread] at hall
      cases hall
    | ok r =>
      rw [hread] at hall
      exact ⟨r, rfl, hall⟩

/-- `declare` keeps rules coherent. -/
theorem Coherent.declare {rules all : List PatternRule} {fields : List (String × Json)}
    (h : Coherent rules) (hall : declare rules fields = .ok all) : Coherent all := by
  -- the accumulator holds the rules so far, which are coherent at every step
  induction fields generalizing rules with
  | nil =>
    cases hall
    exact h
  | cons field rest ih =>
    obtain ⟨hnew, r, hread, hall⟩ := declare_cons_eq_ok hall
    obtain ⟨hname, hgroup⟩ := ofDeclaration_eq_ok hread
    exact ih (h.snoc (fun x hx => hname ▸ hnew x hx) (.of_group_eq_zero hgroup)) hall

/-- Custom rules report group 0. -/
theorem group_of_declare {rules all : List PatternRule} {fields : List (String × Json)}
    (hall : declare rules fields = .ok all) : ∀ r ∈ all, r ∈ rules ∨ r.group = 0 := by
  induction fields generalizing rules with
  | nil =>
    cases hall
    exact fun r hr => .inl hr
  | cons field rest ih =>
    obtain ⟨-, x, hread, hall⟩ := declare_cons_eq_ok hall
    intro r hr
    rcases ih hall r hr with hr | hgroup
    · rcases List.mem_append.mp hr with hr | hr
      · exact .inl hr
      · exact .inr (List.mem_singleton.mp hr ▸ (ofDeclaration_eq_ok hread).2)
    · exact .inr hgroup

theorem coherent_builtin : Coherent builtin where
  names := by decide
  groups r hr := by
    rw [builtin, List.mem_singleton] at hr
    subst hr
    exact ⟨by decide, by decide⟩

/-- The rules that `build` returns are coherent. -/
theorem coherent_of_build {settings : EngineConfig} {rules : List PatternRule}
    (h : build settings = .ok rules) : Coherent rules := by
  unfold build at h
  simp only at h
  split at h
  · cases h
    exact coherent_builtin
  · split at h
    · exact coherent_builtin.declare h
    · cases h

/-- All rules that `build` returns report group 0, except the built-in one. -/
theorem group_of_build {settings : EngineConfig} {rules : List PatternRule} (h : build settings = .ok rules) :
    ∀ r ∈ rules, r = trailingWhitespace ∨ r.group = 0 := by
  have hbuiltin : ∀ r ∈ builtin, r = trailingWhitespace := fun r hr => List.mem_singleton.mp hr
  unfold build at h
  simp only at h
  split at h
  · cases h
    exact fun r hr => .inl (hbuiltin r hr)
  · split at h
    · exact fun r hr => (group_of_declare h r hr).imp_left (hbuiltin r)
    · cases h

/-- A rule that is found by name has this name. -/
theorem find?_eq_some {rules : List PatternRule} {name : String} {r : PatternRule}
    (h : find? rules name = some r) : r ∈ rules ∧ r.name = name := by
  unfold find? at h
  exact ⟨List.mem_of_find?_eq_some h, by simpa using List.find?_some h⟩

theorem find?_isSome {rules : List PatternRule} {name : String} (h : name ∈ rules.map PatternRule.name) :
    (find? rules name).isSome = true := by
  obtain ⟨r, hr, rfl⟩ := List.mem_map.mp h
  unfold find?
  rw [List.find?_isSome]
  exact ⟨r, hr, by simp⟩

end Polyscan.PatternRule
