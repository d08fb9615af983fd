import Mathlib.Data.Finset.Card
import Mathlib.Data.List.Induction
import Polyscan.Proofs.Selection

/-!
`ofList` on an arbitrary list of rules. Each rule occurs once in the selection, in the group of its engine;
its place is that of its first occurrence in the list and its description that of the last. All accessors
agree on this.
-/
namespace Polyscan.Selection

/-- The rule is the last of the list with its engine and name. -/
def IsLatest (rules : List Rule) (r : Rule) : Prop :=
  ∃ before after, rules = before ++ r :: after ∧ ∀ x ∈ after, x.identity ≠ r.identity

section

variable {rules : List Rule} {r last : Rule} {engine name : String}

/-! ## One more rule -/

theorem IsLatest.mem (h : IsLatest rules r) : r ∈ rules := by
  obtain ⟨before, after, rfl, -⟩ := h
  simp

/-- A rule at the end replaces those with the same engine and name. -/
theorem isLatest_snoc_iff :
    IsLatest (rules ++ [last]) r ↔ if r.identity = last.identity then r = last else IsLatest rules r := by
  constructor
  · rintro ⟨before, after, hsplit, hafter⟩
    rcases List.eq_nil_or_concat' after with rfl | ⟨others, x, rfl⟩
    · obtain ⟨-, hlast⟩ := List.append_inj' hsplit rfl
      obtain rfl : last = r := List.singleton_inj.mp hlast
      rw [if_pos rfl]
    · have hsplit : rules ++ [last] = (before ++ r :: others) ++ [x] := by rw [hsplit]; simp
      obtain ⟨hrules, hlast⟩ := List.append_inj' hsplit rfl
      obtain rfl : last = x := List.singleton_inj.mp hlast
      rw [if_neg (hafter last (by simp)).symm]
      exact ⟨before, others, hrules, fun y hy => hafter y (List.mem_append_left _ hy)⟩
  · intro h
    split at h
    case isTrue =>
      rw [h]
      exact ⟨rules, [], rfl, List.forall_mem_nil _⟩
    case isFalse hne =>
      obtain ⟨before, after, rfl, hafter⟩ := h
      refine ⟨before, after ++ [last], by simp, ?_⟩
      rw [List.forall_mem_append, List.forall_mem_singleton]
      exact ⟨hafter, Ne.symm hne⟩

/-- `find?` gives the last rule with the engine and name. -/
theorem find?_ofList_eq_some_iff :
    (ofList rules).find? engine name = some r ↔ r.identity = (engine, name) ∧ IsLatest rules r := by
  induction rules using List.reverseRecOn with
  | nil =>
    constructor
    · intro h
      cases h
    · rintro ⟨-, hlatest⟩
      cases hlatest.mem
  | append_singleton rules last ih =>
    have hsame : last.engine = engine ∧ last.name = name ↔ last.identity = (engine, name) := by
      rw [Rule.identity, Prod.mk.injEq]
    rw [ofList_snoc, find?_insert, isLatest_snoc_iff]
    by_cases hlast : last.identity = (engine, name)
    · rw [if_pos (hsame.mpr hlast), hlast, Option.some.injEq]
      constructor
      · rintro rfl
        exact ⟨hlast, by rw [if_pos hlast]⟩
      · rintro ⟨hr, hlatest⟩
        rw [if_pos hr] at hlatest
        exact hlatest.symm
    · rw [if_neg (hsame.not.mpr hlast), ih]
      refine and_congr_right fun hr => ?_
      rw [hr, if_neg (Ne.symm hlast)]

theorem engineNames_ofList (rules : List Rule) :
    (ofList rules).engineNames = (rules.map Rule.engine).eraseDups := by
  induction rules using List.reverseRecOn with
  | nil => rfl
  | append_singleton rules last ih =>
    rw [ofList_snoc, engineNames_insert, ih, List.map_append, List.map_singleton, OrderedMap.eraseDups_snoc]
    simp only [List.mem_eraseDups]

/-- The names of an engine's rules, in the order of their first occurrence. -/
theorem keys_rulesByName_ofList (rules : List Rule) (engine : String) :
    ((ofList rules).rulesByName engine).keys =
      ((rules.filter (·.engine = engine)).map Rule.name).eraseDups := by
  induction rules using List.reverseRecOn with
  | nil => rfl
  | append_singleton rules last ih =>
    rw [ofList_snoc, rulesByName_insert, List.filter_append]
    by_cases hlast : last.engine = engine
    · have hkept : [last].filter (·.engine = engine) = [last] := List.filter_eq_self.mpr (by simpa using hlast)
      rw [if_pos hlast, OrderedMap.keys_insert, ih, hkept, List.map_append, List.map_singleton,
        OrderedMap.eraseDups_snoc]
      simp only [List.mem_eraseDups]
    · have hleft : [last].filter (·.engine = engine) = [] := List.filter_eq_nil_iff.mpr (by simpa using hlast)
      rw [if_neg hlast, ih, hleft, List.append_nil]

end

/-! ## Views -/

section

variable {s : Selection} {r : Rule} {engine : String}

/-- The rules of an engine are filed under their own names. -/
theorem Filed.map_name_rulesFor (h : s.Filed) (engine : String) :
    (s.rulesFor engine).map Rule.name = (s.rulesByName engine).keys := by
  unfold rulesFor OrderedMap.values OrderedMap.keys
  rw [List.map_map]
  refine List.map_congr_left fun x hx => ?_
  exact (h.rule engine x.1 x.2 (OrderedMap.get?_eq_some_iff.mpr hx)).2

theorem rulesFor_of_not_mem (h : engine ∉ s.engineNames) : s.rulesFor engine = [] := by
  unfold rulesFor rulesByName
  rw [OrderedMap.get?_eq_none_iff.mpr h]
  rfl

theorem Filed.rulesFor_eq_nil_iff (h : s.Filed) : s.rulesFor engine = [] ↔ engine ∉ s.engineNames :=
  ⟨fun hnil hmem => h.nonempty engine hmem hnil, rulesFor_of_not_mem⟩

/-- The rules of the selection are those of one engine after another. -/
theorem flatMap_rulesFor (s : Selection) : s.engineNames.flatMap s.rulesFor = s.toList := by
  unfold engineNames toList OrderedMap.keys OrderedMap.values
  rw [List.flatMap_map, List.flatMap_map]
  refine List.flatMap_congr fun group hgroup => ?_
  have hfound : s.groups.get? group.1 = some group.2 := OrderedMap.get?_eq_some_iff.mpr hgroup
  unfold rulesFor rulesByName
  rw [hfound]
  rfl

theorem count_eq_length (s : Selection) : s.count = s.toList.length := by
  unfold count toList
  rw [List.length_flatMap, List.sum_eq_foldl]
  congr 1
  refine List.map_congr_left fun group _ => ?_
  exact (List.length_map Prod.snd).symm

theorem Filed.mem_toList_iff (h : s.Filed) : r ∈ s.toList ↔ s.find? r.engine r.name = some r := by
  rw [← flatMap_rulesFor, List.mem_flatMap]
  constructor
  · rintro ⟨engine, -, hr⟩
    obtain ⟨rfl, hfound⟩ := h.find?_of_mem_rulesFor hr
    exact hfound
  · intro hfound
    have hr := mem_rulesFor_of_find? hfound
    refine ⟨r.engine, ?_, hr⟩
    by_contra hnot
    rw [rulesFor_of_not_mem hnot] at hr
    cases hr

/-- No engine and name occur twice. -/
theorem Filed.nodup_identity (h : s.Filed) : (s.toList.map Rule.identity).Nodup := by
  rw [← flatMap_rulesFor, List.map_flatMap, List.nodup_flatMap]
  constructor
  · intro engine _
    refine List.Nodup.of_map Prod.snd ?_
    rw [List.map_map]
    exact (h.map_name_rulesFor engine).symm ▸ (s.rulesByName engine).keys_nodup
  · refine s.groups.keys_nodup.imp fun {engine engine'} hne => ?_
    rintro id hid hid'
    obtain ⟨r, hr, rfl⟩ := List.mem_map.mp hid
    obtain ⟨r', hr', hsame⟩ := List.mem_map.mp hid'
    refine hne ?_
    rw [← (h.find?_of_mem_rulesFor hr).1, ← (h.find?_of_mem_rulesFor hr').1]
    exact (congrArg Prod.fst hsame).symm

end

/-! ## Partitions -/

/-- The selection is a partition of the list by engine and name, in terms of its five accessors. -/
structure Divides (s : Selection) (rules : List Rule) : Prop where
  once : (s.toList.map Rule.identity).Nodup
  all : ∀ id, id ∈ s.toList.map Rule.identity ↔ id ∈ rules.map Rule.identity
  latest : ∀ r, r ∈ s.toList ↔ IsLatest rules r
  size : s.toList.length = s.count
  count : s.count = (rules.map Rule.identity).toFinset.card
  engines : s.engineNames = (rules.map Rule.engine).eraseDups
  names : ∀ engine, (s.rulesFor engine).map Rule.name =
    ((rules.filter (·.engine = engine)).map Rule.name).eraseDups
  owned : ∀ engine, ∀ r ∈ s.rulesFor engine, r.engine = engine
  parts : s.engineNames.flatMap s.rulesFor = s.toList
  empty : ∀ engine, s.rulesFor engine = [] ↔ engine ∉ rules.map Rule.engine
  given : ∀ engine name r, s.rule engine name = .ok r ↔ r.identity = (engine, name) ∧ IsLatest rules r
  succeeds : ∀ engine name, (∃ r, s.rule engine name = .ok r) ↔ (engine, name) ∈ rules.map Rule.identity
  refused : ∀ engine name, (engine, name) ∉ rules.map Rule.identity →
    s.rule engine name = .error (.absent (.ruleNotSelected engine name))

section

variable {rules : List Rule} {r : Rule} {engine name : String}

theorem find?_of_rule : (ofList rules).rule engine name = .ok r ↔ (ofList rules).find? engine name = some r := by
  unfold rule
  cases (ofList rules).find? engine name <;> simp

/-- Every engine and name of the list has a last rule. -/
theorem exists_isLatest {id : String × String} (h : id ∈ rules.map Rule.identity) :
    ∃ r, r.identity = id ∧ IsLatest rules r := by
  induction rules using List.reverseRecOn with
  | nil => cases h
  | append_singleton rules last ih =>
    by_cases hlast : last.identity = id
    · exact ⟨last, hlast, isLatest_snoc_iff.mpr (by rw [if_pos rfl])⟩
    · rw [List.map_append, List.map_singleton, List.mem_append, List.mem_singleton] at h
      obtain ⟨r, hr, hlatest⟩ := ih (h.resolve_right (Ne.symm hlast))
      refine ⟨r, hr, isLatest_snoc_iff.mpr ?_⟩
      rwa [if_neg (hr ▸ Ne.symm hlast)]

end

/-- `ofList` of every list of rules, in any order and with any repetitions, is a partition of it. -/
theorem ofList_divides (rules : List Rule) : (ofList rules).Divides rules := by
  have hfiled := filed_ofList rules
  have hlatest : ∀ r, r ∈ (ofList rules).toList ↔ IsLatest rules r := by
    intro r
    rw [hfiled.mem_toList_iff, find?_ofList_eq_some_iff]
    exact and_iff_right rfl
  have hall : ∀ id, id ∈ (ofList rules).toList.map Rule.identity ↔ id ∈ rules.map Rule.identity := by
    intro id
    rw [List.mem_map]
    constructor
    · rintro ⟨r, hr, rfl⟩
      exact List.mem_map_of_mem ((hlatest r).mp hr).mem
    · intro hid
      obtain ⟨r, rfl, hr⟩ := exists_isLatest hid
      exact ⟨r, (hlatest r).mpr hr, rfl⟩
  have hgiven : ∀ engine name r,
      (ofList rules).rule engine name = .ok r ↔ r.identity = (engine, name) ∧ IsLatest rules r := by
    intro engine name r
    rw [find?_of_rule, find?_ofList_eq_some_iff]
  refine ⟨hfiled.nodup_identity, hall, hlatest, (count_eq_length _).symm, ?_, engineNames_ofList rules, ?_, ?_,
    flatMap_rulesFor _, ?_, hgiven, ?_, ?_⟩
  · -- both lists have the same members, and one of them has each once
    have hsame : (rules.map Rule.identity).toFinset = ((ofList rules).toList.map Rule.identity).toFinset := by
      ext id
      rw [List.mem_toFinset, List.mem_toFinset, hall]
    rw [hsame, List.toFinset_card_of_nodup hfiled.nodup_identity, List.length_map, count_eq_length]
  · intro engine
    rw [hfiled.map_name_rulesFor, keys_rulesByName_ofList]
  · intro engine r hr
    exact (hfiled.find?_of_mem_rulesFor hr).1
  · intro engine
    rw [hfiled.rulesFor_eq_nil_iff, engineNames_ofList, List.mem_eraseDups]
  · intro engine name
    constructor
    · rintro ⟨r, hr⟩
      obtain ⟨hid, hr⟩ := (hgiven engine name r).mp hr
      exact hid ▸ List.mem_map_of_mem hr.mem
    · intro hid
      obtain ⟨r, hr⟩ := exists_isLatest hid
      exact ⟨r, (hgiven engine name r).mpr hr⟩
  · intro engine name hnot
    have hnone : (ofList rules).find? engine name = none := by
      rw [Option.eq_none_iff_forall_ne_some]
      intro r hr
      obtain ⟨hid, hr⟩ := find?_ofList_eq_some_iff.mp hr
      exact hnot (hid ▸ List.mem_map_of_mem hr.mem)
    unfold rule
    rw [hnone]

end Polyscan.Selection
