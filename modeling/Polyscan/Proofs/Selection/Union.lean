import Mathlib.Data.List.Induction
import Mathlib.Data.List.Nodup
import Polyscan.Proofs.Catalogue.Agreement
import Polyscan.Proofs.Path

/-!
`select` as a union. A selector is the conjunction of its terms, and a list of selectors selects the rules
that one of them matches. In a catalogue the rules of an engine are contiguous and no rule occurs twice, so
the selection, which groups rules by engine, keeps the order of the catalogue (`Catalogued.filed`).
-/
namespace Polyscan

/-! ## Selectors -/

namespace Rule

variable {r : Rule}

/-- The term is `all`, the name of the rule's engine, the name of the rule, or one of its tags. -/
def IsNamed (r : Rule) (term : String) : Prop :=
  term = "all" ∨ term = r.engine ∨ term = r.name ∨ term ∈ r.tags

theorem matchesSelector_iff {selector : String} :
    r.matchesSelector selector = true ↔ ∀ term ∈ Text.split ':' selector, r.IsNamed term := by
  simp [matchesSelector, selectables, IsNamed]

theorem matchesSelector_append (s t : String) :
    r.matchesSelector (s ++ ":" ++ t) = true ↔
      r.matchesSelector s = true ∧ r.matchesSelector t = true := by
  rw [matchesSelector_iff, matchesSelector_iff, matchesSelector_iff, Text.split_append rfl]
  exact List.forall_mem_append

theorem matchesSelector_all : r.matchesSelector "all" = true := by
  have hsplit : Text.split ':' "all" = ["all"] := rfl
  rw [matchesSelector_iff, hsplit]
  intro term hterm
  exact .inl (List.mem_singleton.mp hterm)

/-- A selector matches the rule if and only if each of its terms names the rule; `all` is neutral. -/
structure Conjoins (r : Rule) : Prop where
  terms : ∀ terms : List String, terms ≠ [] → (∀ term ∈ terms, ':' ∉ term.toList) →
    (r.matchesSelector (Text.join ":" terms) = true ↔ ∀ term ∈ terms, r.IsNamed term)
  both : ∀ s t : String, r.matchesSelector (s ++ ":" ++ t) = true ↔
    r.matchesSelector s = true ∧ r.matchesSelector t = true
  neutral : ∀ s : String, r.matchesSelector (s ++ ":" ++ "all") = r.matchesSelector s ∧
    r.matchesSelector ("all" ++ ":" ++ s) = r.matchesSelector s

theorem conjoins (r : Rule) : r.Conjoins where
  terms terms hne hterms := by
    rw [matchesSelector_iff, Text.split_join rfl hne hterms]
  both := matchesSelector_append
  neutral s := by
    constructor
    · rw [Bool.eq_iff_iff, matchesSelector_append]
      exact and_iff_left matchesSelector_all
    · rw [Bool.eq_iff_iff, matchesSelector_append]
      exact and_iff_right matchesSelector_all

end Rule

namespace Selection

/-! ## Catalogues -/

/-- Between two rules of an engine there are only rules of this engine. -/
def Contiguous (rules : List Rule) : Prop :=
  ∀ x y z, [x, y, z].Sublist rules → x.engine = z.engine → y.engine = x.engine

/-- The rules of each engine are contiguous, and no two of them have the same name. -/
structure Catalogued (rules : List Rule) : Prop where
  contiguous : Contiguous rules
  distinct : (rules.map Rule.identity).Nodup

theorem Catalogued.sublist {rules fewer : List Rule} (h : Catalogued rules) (hsub : fewer.Sublist rules) :
    Catalogued fewer where
  contiguous x y z hxyz := h.contiguous x y z (hxyz.trans hsub)
  distinct := h.distinct.sublist (hsub.map Rule.identity)

/-- The rules of other engines may follow. -/
theorem Catalogued.append {rules more : List Rule} (h : Catalogued rules) (h' : Catalogued more)
    (hapart : ∀ x ∈ rules, ∀ y ∈ more, x.engine ≠ y.engine) : Catalogued (rules ++ more) where
  contiguous := by
    intro x y z hxyz hends
    obtain ⟨front, back, hsplit, hfront, hback⟩ := List.sublist_append_iff.mp hxyz
    cases front with
    | nil => exact h'.contiguous x y z (hsplit ▸ hback) hends
    | cons first others =>
      have hx : x ∈ rules := by
        cases (List.cons.inj hsplit).1
        exact hfront.subset List.mem_cons_self
      rcases List.eq_nil_or_concat' back with rfl | ⟨others', last, rfl⟩
      · exact h.contiguous x y z (by rw [hsplit, List.append_nil]; exact hfront) hends
      · -- the last of the three is beyond the end of `rules`, so it is of another engine
        have hends' : [x, y] ++ [z] = first :: others ++ others' ++ [last] := by
          rw [List.append_assoc]
          exact hsplit
        cases (List.append_inj' hends' rfl).2
        exact absurd hends (hapart x hx z (hback.subset (by simp)))
  distinct := by
    rw [List.map_append, List.nodup_append]
    refine ⟨h.distinct, h'.distinct, ?_⟩
    intro i hi j hj hij
    obtain ⟨x, hx, rfl⟩ := List.mem_map.mp hi
    obtain ⟨y, hy, rfl⟩ := List.mem_map.mp hj
    exact hapart x hx y hy (congrArg Prod.fst hij)

theorem catalogued_of_engine {rules : List Rule} {engine : String} (hengine : ∀ r ∈ rules, r.engine = engine)
    (hnames : (rules.map Rule.name).Nodup) : Catalogued rules where
  contiguous x y z hxyz _ := by
    rw [hengine y (hxyz.subset (by simp)), hengine x (hxyz.subset (by simp))]
  distinct := by
    refine List.Nodup.of_map Prod.snd ?_
    rwa [List.map_map]

/-- The rules of distinct engines, one engine after another, are a catalogue. -/
theorem catalogued_flatMap {engines : List String} {rulesOf : String → List Rule} (hnodup : engines.Nodup)
    (hengine : ∀ e ∈ engines, ∀ r ∈ rulesOf e, r.engine = e)
    (hnames : ∀ e ∈ engines, ((rulesOf e).map Rule.name).Nodup) :
    Catalogued (engines.flatMap rulesOf) := by
  induction engines with
  | nil => exact ⟨by intro x y z h; simp at h, .nil⟩
  | cons e rest ih =>
    rw [List.nodup_cons] at hnodup
    rw [List.forall_mem_cons] at hengine hnames
    refine (catalogued_of_engine hengine.1 hnames.1).append (ih hnodup.2 hengine.2 hnames.2) ?_
    intro x hx y hy heq
    obtain ⟨e', he', hy⟩ := List.mem_flatMap.mp hy
    refine hnodup.1 ?_
    rw [← hengine.1 x hx, heq, hengine.2 e' he' y hy]
    exact he'

/-! ## Filing a catalogue -/

/-- The engine of the last group. -/
def lastEngine? (s : Selection) : Option String := s.engineNames.getLast?

theorem toList_eq_flatMap (s : Selection) :
    s.toList = s.groups.entries.flatMap fun group => group.2.values := by
  unfold toList OrderedMap.values
  rw [List.flatMap_map]

/-- A rule of a new engine is inserted at the end. -/
theorem toList_insert_of_new {s : Selection} {r : Rule} (hnew : r.engine ∉ s.engineNames) :
    (s.insert r).toList = s.toList ++ [r] := by
  have hnone : s.rulesByName r.engine = .empty := by
    unfold rulesByName
    rw [OrderedMap.get?_eq_none_iff.mpr hnew]
    rfl
  have hentries : (s.insert r).groups.entries =
      s.groups.entries ++ [(r.engine, OrderedMap.empty.insert r.name r)] := by
    unfold insert
    rw [hnone]
    exact OrderedMap.entries_insert _ hnew
  rw [toList_eq_flatMap, toList_eq_flatMap, hentries, List.flatMap_append]
  rfl

/-- A new rule of the engine of the last group is inserted at the end. -/
theorem toList_insert_of_last {s : Selection} {r : Rule} (hlast : s.lastEngine? = some r.engine)
    (hnew : s.find? r.engine r.name = none) : (s.insert r).toList = s.toList ++ [r] := by
  unfold lastEngine? engineNames OrderedMap.keys at hlast
  rw [List.getLast?_map, Option.map_eq_some_iff] at hlast
  obtain ⟨⟨engine, group⟩, hlast, rfl⟩ := hlast
  obtain ⟨before, hentries⟩ := List.getLast?_eq_some_iff.mp hlast
  have hgroup : s.rulesByName r.engine = group := by
    unfold rulesByName
    rw [OrderedMap.get?_eq_some_iff.mpr (List.mem_of_getLast? hlast)]
    rfl
  have hbefore : r.engine ∉ before.map Prod.fst := by
    have hdistinct := s.groups.distinct
    rw [hentries, List.map_append, List.nodup_append] at hdistinct
    intro hmem
    exact hdistinct.2.2 _ hmem _ (by simp) rfl
  have hadded : (group.insert r.name r).values = group.values ++ [r] := by
    unfold find? at hnew
    rw [hgroup, OrderedMap.get?_eq_none_iff] at hnew
    simp [OrderedMap.values, OrderedMap.entries_insert r hnew]
  have hafter : (s.insert r).groups.entries = before ++ [(r.engine, group.insert r.name r)] := by
    show OrderedMap.put _ _ s.groups.entries = _
    rw [hentries, OrderedMap.put_append _ _ hbefore, hgroup]
    simp [OrderedMap.put]
  rw [toList_eq_flatMap, toList_eq_flatMap, hafter, hentries]
  simp [hadded]

theorem lastEngine?_insert_of_new {s : Selection} {r : Rule} (hnew : r.engine ∉ s.engineNames) :
    (s.insert r).lastEngine? = some r.engine := by
  rw [lastEngine?, engineNames_insert, if_neg hnew, List.getLast?_concat]

theorem lastEngine?_insert_of_mem {s : Selection} {r : Rule} (hmem : r.engine ∈ s.engineNames) :
    (s.insert r).lastEngine? = s.lastEngine? := by
  rw [lastEngine?, engineNames_insert, if_pos hmem, lastEngine?]

/-- Every engine of a selection has a rule in it. -/
theorem exists_of_mem_engineNames {rules : List Rule} {engine : String}
    (h : engine ∈ (ofList rules).engineNames) : ∃ r ∈ rules, r.engine = engine := by
  obtain ⟨r, hr⟩ := List.exists_mem_of_ne_nil _ ((filed_ofList rules).nonempty engine h)
  exact ⟨r, mem_of_mem_rulesFor hr⟩

/-- `ofList` of a catalogue lists the catalogue unchanged. -/
theorem Catalogued.filed {rules : List Rule} (h : Catalogued rules) :
    (ofList rules).toList = rules ∧ (ofList rules).lastEngine? = rules.getLast?.map Rule.engine := by
  -- `ofList` inserts from left to right, hence the induction from the end
  induction rules using List.reverseRecOn with
  | nil => exact ⟨rfl, rfl⟩
  | append_singleton rules r ih =>
    obtain ⟨hlist, hlast⟩ := ih (h.sublist (List.sublist_append_left rules [r]))
    have hnew : (ofList rules).find? r.engine r.name = none := by
      rw [Option.eq_none_iff_forall_ne_some]
      intro other hother
      obtain ⟨hengine, hname⟩ := (filed_ofList rules).rule _ _ _ hother
      have hmem : other ∈ rules := (mem_of_mem_rulesFor (mem_rulesFor_of_find? hother)).1
      have hdistinct := h.distinct
      rw [List.map_append, List.nodup_append] at hdistinct
      refine hdistinct.2.2 _ (List.mem_map_of_mem hmem) _ List.mem_cons_self ?_
      exact Prod.ext hengine hname
    rw [ofList_snoc, List.getLast?_concat]
    by_cases hengine : r.engine ∈ (ofList rules).engineNames
    · have hbefore : (ofList rules).lastEngine? = some r.engine := by
        rw [hlast]
        obtain ⟨x, hx, hxr⟩ := exists_of_mem_engineNames hengine
        obtain ⟨before, last, rfl⟩ :=
          (List.eq_nil_or_concat' rules).resolve_left (List.ne_nil_of_mem hx)
        rw [List.getLast?_concat]
        rcases List.mem_append.mp hx with hx | hx
        · -- between that rule and the new one stands the last rule so far
          have hthree : [x, last, r].Sublist (before ++ [last] ++ [r]) := by
            rw [List.append_assoc]
            exact (List.singleton_sublist.mpr hx).append (.refl [last, r])
          exact congrArg some ((h.contiguous x last r hthree hxr).trans hxr)
        · rw [← List.mem_singleton.mp hx]
          exact congrArg some hxr
      rw [toList_insert_of_last hbefore hnew, hlist, lastEngine?_insert_of_mem hengine]
      exact ⟨rfl, hbefore⟩
    · rw [toList_insert_of_new hengine, hlist, lastEngine?_insert_of_new hengine]
      exact ⟨rfl, rfl⟩

/-! ## Picking -/

/-- One of the selectors matches the rule. -/
def Picks (selectors : List String) (r : Rule) : Prop := ∃ s ∈ selectors, r.matchesSelector s = true

theorem select_of_ne_nil (rules : List Rule) {selectors : List String} (hne : selectors ≠ []) :
    select rules selectors = ofList (rules.filter fun r => selectors.any r.matchesSelector) := by
  unfold select
  rw [if_neg (by simpa using hne)]

theorem Catalogued.toList_select {rules : List Rule} (h : Catalogued rules) {selectors : List String}
    (hne : selectors ≠ []) :
    (select rules selectors).toList = rules.filter fun r => selectors.any r.matchesSelector := by
  rw [select_of_ne_nil rules hne]
  exact (h.sublist List.filter_sublist).filed.1

theorem Catalogued.mem_select_iff {rules : List Rule} (h : Catalogued rules) {selectors : List String}
    (hne : selectors ≠ []) {r : Rule} :
    r ∈ (select rules selectors).toList ↔ r ∈ rules ∧ Picks selectors r := by
  rw [h.toList_select hne, List.mem_filter, List.any_eq_true]
  rfl

/-- The engines of `ofList` are those of the rules. -/
theorem mem_engineNames_iff {rules : List Rule} {engine : String} :
    engine ∈ (ofList rules).engineNames ↔ ∃ r ∈ rules, r.engine = engine := by
  refine ⟨exists_of_mem_engineNames, ?_⟩
  rintro ⟨r, hr, rfl⟩
  induction rules using List.reverseRecOn with
  | nil => cases hr
  | append_singleton rules last ih =>
    rw [ofList_snoc, engineNames_insert]
    rcases List.mem_append.mp hr with hr | hr
    · split
      · exact ih hr
      · exact List.mem_append_left _ (ih hr)
    · rw [List.mem_singleton.mp hr]
      split
      · assumption
      · exact List.mem_append_right _ List.mem_cons_self

/-- `select` on these rules: it lists the rules that one of the selectors matches, in the order of the
catalogue, for every order of the selectors; it is monotone in the selectors and takes a concatenation to a
union; no selectors mean `Recommended`. -/
structure PicksUnion (rules : List Rule) : Prop where
  listed : ∀ selectors : List String, selectors ≠ [] →
    (select rules selectors).toList = rules.filter fun r => selectors.any r.matchesSelector
  engines : ∀ selectors : List String, selectors ≠ [] → ∀ engine,
    engine ∈ (select rules selectors).engineNames ↔ ∃ r ∈ rules, r.engine = engine ∧ Picks selectors r
  order : ∀ selectors others : List String, (∀ s, s ∈ selectors ↔ s ∈ others) →
    select rules selectors = select rules others
  mono : ∀ selectors others : List String, selectors ≠ [] → selectors ⊆ others →
    (select rules selectors).toList.Sublist (select rules others).toList
  union : ∀ selectors others : List String, selectors ≠ [] → others ≠ [] → ∀ r,
    r ∈ (select rules (selectors ++ others)).toList ↔
      r ∈ (select rules selectors).toList ∨ r ∈ (select rules others).toList
  default : select rules [] = select rules ["Recommended"]

theorem Catalogued.picksUnion {rules : List Rule} (h : Catalogued rules) : PicksUnion rules where
  listed selectors hne := h.toList_select hne
  engines selectors hne engine := by
    rw [select_of_ne_nil rules hne, mem_engineNames_iff]
    simp only [List.mem_filter, List.any_eq_true, Picks]
    constructor
    · rintro ⟨r, ⟨hr, hpicks⟩, hengine⟩
      exact ⟨r, hr, hengine, hpicks⟩
    · rintro ⟨r, hr, hengine, hpicks⟩
      exact ⟨r, ⟨hr, hpicks⟩, hengine⟩
  order selectors others hsame := by
    by_cases hne : selectors = []
    · have hnone : others = [] := by
        rw [List.eq_nil_iff_forall_not_mem]
        intro s hs
        rw [← hsame, hne] at hs
        cases hs
      rw [hne, hnone]
    · have hne' : others ≠ [] := by
        obtain ⟨s, hs⟩ := List.exists_mem_of_ne_nil _ hne
        exact List.ne_nil_of_mem ((hsame s).mp hs)
      rw [select_of_ne_nil rules hne, select_of_ne_nil rules hne']
      refine congrArg ofList (List.filter_congr fun r _ => ?_)
      rw [Bool.eq_iff_iff, List.any_eq_true, List.any_eq_true]
      simp only [hsame]
  mono selectors others hne hsub := by
    have hne' : others ≠ [] := fun hnil => hne (List.subset_nil.mp (hnil ▸ hsub))
    rw [h.toList_select hne, h.toList_select hne']
    refine List.monotone_filter_right rules fun r hr => ?_
    obtain ⟨s, hs, hmatch⟩ := List.any_eq_true.mp hr
    exact List.any_eq_true.mpr ⟨s, hsub hs, hmatch⟩
  union selectors others hne hne' r := by
    have hboth : selectors ++ others ≠ [] := by simp [hne]
    rw [h.mem_select_iff hboth, h.mem_select_iff hne, h.mem_select_iff hne', ← and_or_left]
    simp only [Picks, List.mem_append, or_and_right, exists_or]
  default := rfl

end Selection

/-- What `rulesIn` returns is a catalogue. -/
theorem Analyzer.catalogued_of_rulesIn {a : Analyzer} {w : Workspace} {rules : List Rule}
    (h : ((rulesIn w).drive a).1 = .ok rules) : Selection.Catalogued rules := by
  rw [rulesIn_catalogue] at h
  obtain ⟨rulesOf, rfl, hlisting⟩ := catalogue_eq_ok h
  refine Selection.catalogued_flatMap a.slots.keys_nodup (fun engine hengine => ?_) fun engine hengine => ?_
  · obtain ⟨tick, hlisted⟩ := hlisting engine hengine
    exact engine_of_listing hlisted
  obtain ⟨tick, hlisted⟩ := hlisting engine hengine
  obtain ⟨ds, hdescribed, -, hrules⟩ := listing_eq_ok_iff.mp hlisted
  have hnames : (rulesOf engine).map Rule.name = ds.map RuleDescription.name := by
    rw [hrules, List.map_map]
    rfl
  rw [hnames]
  exact (describes_of_described hdescribed).2

/-- A selector is the conjunction of its terms for every rule, `select` of a list of selectors is a union over
every catalogue, and what `rulesIn` returns is a catalogue. -/
theorem Selection.select_unites :
    (∀ r : Rule, r.Conjoins) ∧ (∀ rules, Catalogued rules → PicksUnion rules) ∧
      ∀ (a : Analyzer) (w : Workspace) (rules : List Rule),
        ((Analyzer.rulesIn w).drive a).1 = .ok rules → Catalogued rules :=
  ⟨Rule.conjoins, fun _ h => h.picksUnion, fun _ _ _ h => Analyzer.catalogued_of_rulesIn h⟩

/-- Two engines, the first of which has two rules; both engines have a rule of the same name. -/
def Selection.twoEngines : List Rule :=
  [⟨"style", { name := "Tab", severity := .low, tags := ["Recommended"] }⟩,
    ⟨"style", { name := "Space", severity := .info }⟩,
    ⟨"safety", { name := "Tab", severity := .high }⟩]

/-- Three selectors that list the catalogue in its order, two engines of which a rule is selected, and a
conjunction that no rule satisfies. -/
theorem Selection.select_unites_twoEngines :
    Catalogued twoEngines ∧ PicksUnion twoEngines ∧
      (select twoEngines ["safety:Tab", "Recommended", "all:Space:style"]).toList = twoEngines ∧
      (select twoEngines ["Tab", "safety"]).engineNames = ["style", "safety"] ∧
      (select twoEngines ["safety:Space"]).toList = [] := by
  have hcatalogued : Catalogued twoEngines := by
    show Catalogued (["style", "safety"].flatMap fun engine => twoEngines.filter (·.engine = engine))
    refine catalogued_flatMap (by decide) ?_ (by decide)
    intro engine _ r hr
    simpa using (List.mem_filter.mp hr).2
  have hpicks := select_unites.2.1 twoEngines hcatalogued
  refine ⟨hcatalogued, hpicks, ?_, rfl, ?_⟩
  · rw [hpicks.listed _ (by simp)]
    rfl
  · rw [hpicks.listed _ (by simp)]
    rfl

end Polyscan
