import Polyscan.Analyzer.Run
import Polyscan.Proofs.Selection.Union

/-!
Selecting a rule by its name, its engine's name or one of its tags. `:` separates the terms of a selector, so
a word with `:` selects the rule if and only if each of its parts names the rule.
-/
namespace Polyscan

/-- The word is the rule's name, its engine's name or one of its tags. -/
def Rule.IsCalled (r : Rule) (word : String) : Prop := word = r.name ∨ word = r.engine ∨ word ∈ r.tags

theorem Rule.IsCalled.isNamed {r : Rule} {word : String} (h : r.IsCalled word) : r.IsNamed word := by
  rcases h with h | h | h
  · exact .inr (.inr (.inl h))
  · exact .inr (.inl h)
  · exact .inr (.inr (.inr h))

/-- A word without `:` is a selector of one term. -/
theorem Rule.matchesSelector_of_not_mem {r : Rule} {word : String} (hcolon : ':' ∉ word.toList) :
    r.matchesSelector word = true ↔ r.IsNamed word := by
  rw [matchesSelector_iff, Text.split_of_not_mem hcolon]
  exact List.forall_mem_singleton

namespace Selection

/-- The selection lists the rule and finds it under its engine and name. -/
structure Includes (s : Selection) (r : Rule) : Prop where
  listed : r ∈ s.toList
  found : s.find? r.engine r.name = some r

/-- In a list without repetitions every rule is found under its engine and name. -/
theorem find?_ofList_of_mem {rules : List Rule} (hdistinct : (rules.map Rule.identity).Nodup) {r : Rule}
    (hr : r ∈ rules) : (ofList rules).find? r.engine r.name = some r := by
  induction rules using List.reverseRecOn with
  | nil => cases hr
  | append_singleton rules last ih =>
    rw [List.map_append, List.nodup_append] at hdistinct
    obtain ⟨hbefore, -, hlast⟩ := hdistinct
    rw [ofList_snoc, find?_insert]
    rcases List.mem_append.mp hr with hr | hr
    · have hne : ¬ (last.engine = r.engine ∧ last.name = r.name) := by
        rintro ⟨hengine, hname⟩
        refine hlast r.identity (List.mem_map_of_mem hr) last.identity List.mem_cons_self ?_
        exact Prod.ext hengine.symm hname.symm
      rw [if_neg hne]
      exact ih hbefore hr
    · rw [← List.mem_singleton.mp hr]
      exact if_pos ⟨rfl, rfl⟩

/-- `select` on a catalogue includes the rules that one of the selectors matches. -/
theorem Catalogued.includes_select_iff {rules : List Rule} (h : Catalogued rules) {selectors : List String}
    (hne : selectors ≠ []) {r : Rule} (hr : r ∈ rules) :
    (select rules selectors).Includes r ↔ Picks selectors r := by
  constructor
  · intro hincludes
    exact ((h.mem_select_iff hne).mp hincludes.listed).2
  · intro hpicks
    refine ⟨(h.mem_select_iff hne).mpr ⟨hr, hpicks⟩, ?_⟩
    rw [select_of_ne_nil rules hne]
    refine find?_ofList_of_mem (h.sublist List.filter_sublist).distinct ?_
    exact List.mem_filter.mpr ⟨hr, List.any_eq_true.mpr hpicks⟩

/-- `select` with one selector includes the rules that each of its terms names. -/
theorem Catalogued.includes_select_singleton_iff {rules : List Rule} (h : Catalogued rules)
    {selector : String} {r : Rule} (hr : r ∈ rules) :
    (select rules [selector]).Includes r ↔ ∀ term ∈ Text.split ':' selector, r.IsNamed term := by
  rw [h.includes_select_iff (List.cons_ne_nil _ _) hr, ← Rule.matchesSelector_iff]
  simp [Picks]

end Selection

namespace Analyzer

variable {a b : Analyzer} {choice : Option Workspace} {rules : List Rule}

theorem catalogued_of_allRules (h : (allRules choice).drive a = (.ok rules, b)) :
    Selection.Catalogued rules := by
  unfold allRules at h
  rw [Work.drive_bind] at h
  split at h
  · next w a' hw => exact catalogued_of_rulesIn (congrArg Prod.fst h)
  · cases h

/-- `select` lists the rules of all engines and selects from them. -/
theorem select_drive (selectors : List String) (h : (allRules choice).drive a = (.ok rules, b)) :
    (select selectors choice).drive a = (.ok (Selection.select rules selectors), b) := by
  unfold select
  rw [Work.drive_bind, h]
  rfl

/-- `select` with a word that is the name, the engine's name or a tag of a listed rule includes the rule if
the word has no `:`. In general it includes the rule if and only if every term of the word names it. -/
theorem select_called (h : (allRules choice).drive a = (.ok rules, b)) {r : Rule} (hr : r ∈ rules)
    {word : String} (hword : r.IsCalled word) :
    ∃ s, (select [word] choice).drive a = (.ok s, b) ∧ (':' ∉ word.toList → s.Includes r) ∧
      (s.Includes r ↔ ∀ term ∈ Text.split ':' word, r.IsNamed term) := by
  have hcatalogued := catalogued_of_allRules h
  have hterms : (Selection.select rules [word]).Includes r ↔
      ∀ term ∈ Text.split ':' word, r.IsNamed term :=
    hcatalogued.includes_select_singleton_iff hr
  refine ⟨_, select_drive [word] h, fun hcolon => ?_, hterms⟩
  rw [hterms, ← Rule.matchesSelector_iff, Rule.matchesSelector_of_not_mem hcolon]
  exact hword.isNamed

/-- A custom rule with `:` in its name, and with tags of which two are conjunctions of words. -/
def colonConfig : Config where
  engines := [("regex", [("custom_rules", .obj [("no:tabs", .obj [("regex", .str "\t"),
    ("description", .str "Tabs.")])])])]
  rules := [("regex", [("no:tabs", { tags := some ["Layout", "regex:Layout", "Layout:new"] })])]

/-- The bundled engine with this configuration. -/
def withColons : Analyzer :=
  ((addPlugin .bundled).drive { host := ⟨.folder [], [], "/home/user", []⟩, config := colonConfig }).2

def noTabs : Rule where
  engine := "regex"
  description :=
    { name := "no:tabs"
      severity := .moderate
      tags := ["Layout", "regex:Layout", "Layout:new"]
      description := "Tabs." }

theorem allRules_withColons : ((allRules (some anywhere)).drive withColons).1 =
    .ok [⟨"regex", PatternRule.trailingWhitespace.toDescription⟩, noTabs] := rfl

/-- A tag selects the rule, and so does a tag with `:` whose parts name the rule. -/
theorem select_called_noTabs :
    (∃ s b, (select ["Layout"] (some anywhere)).drive withColons = (.ok s, b) ∧ s.Includes noTabs) ∧
      ∃ s b, (select ["regex:Layout"] (some anywhere)).drive withColons = (.ok s, b) ∧
        s.Includes noTabs := by
  have hlisted := Prod.ext (y := (_, _)) allRules_withColons rfl
  have hmem : noTabs ∈ [⟨"regex", PatternRule.trailingWhitespace.toDescription⟩, noTabs] := by simp
  constructor
  · have hcalled : noTabs.IsCalled "Layout" := .inr (.inr (by decide))
    obtain ⟨s, hs, hincludes, -⟩ := select_called hlisted hmem hcalled
    exact ⟨s, _, hs, hincludes (by decide)⟩
  · have hcalled : noTabs.IsCalled "regex:Layout" := .inr (.inr (by decide))
    have hsplit : Text.split ':' "regex:Layout" = ["regex", "Layout"] := rfl
    obtain ⟨s, hs, -, hterms⟩ := select_called hlisted hmem hcalled
    refine ⟨s, _, hs, hterms.mpr ?_⟩
    rw [hsplit, List.forall_mem_cons, List.forall_mem_singleton]
    exact ⟨.inr (.inl rfl), .inr (.inr (.inr (by decide)))⟩

/-- The name of the rule has `:` and does not select it. -/
theorem select_misses_noTabs :
    ∃ rules s b, (allRules (some anywhere)).drive withColons = (.ok rules, b) ∧ noTabs ∈ rules ∧
      noTabs.IsCalled "no:tabs" ∧ (select ["no:tabs"] (some anywhere)).drive withColons = (.ok s, b) ∧
      s.toList = [] := by
  have hlisted := Prod.ext (y := (_, _)) allRules_withColons rfl
  exact ⟨_, _, _, hlisted, by simp, .inl rfl, select_drive ["no:tabs"] hlisted, by decide⟩

end Analyzer

end Polyscan
