import Polyscan.Proofs.Catalogue.Description

/-!
The catalogue. If the descriptions of all engines are valid and no engine repeats a name, `rulesIn` lists all
rules with their overrides; otherwise it fails with the failure of an engine.
-/
namespace Polyscan

/-! ## Overrides -/

namespace Config

/-- The configuration has this override for a rule of an engine. -/
def Overrides (c : Config) (engine rule : String) (o : RuleOverride) : Prop :=
  ∃ table, (engine, table) ∈ c.rules ∧ (rule, o) ∈ table

/-- No engine, and no rule of an engine, occurs twice in the configuration. -/
def Keyed (c : Config) : Prop :=
  (c.rules.map Prod.fst).Nodup ∧ ∀ e ∈ c.rules, (e.2.map Prod.fst).Nodup

theorem override_of_overrides {c : Config} {engine rule : String} {o : RuleOverride} (hc : c.Keyed)
    (h : c.Overrides engine rule o) : c.override engine rule = o := by
  obtain ⟨table, htable, ho⟩ := h
  unfold override
  rw [OrderedMap.find_of_mem hc.1 htable, Option.getD_some,
    OrderedMap.find_of_mem (hc.2 _ htable) ho, Option.getD_some]

theorem override_of_absent {c : Config} {engine rule : String} (h : ∀ o, ¬ c.Overrides engine rule o) :
    c.override engine rule = {} := by
  unfold override
  cases htable : OrderedMap.find engine c.rules with
  | none => rfl
  | some table =>
    rw [Option.getD_some]
    cases ho : OrderedMap.find rule table with
    | none => rfl
    | some o => exact absurd ⟨table, OrderedMap.mem_of_find htable, OrderedMap.mem_of_find ho⟩ (h o)

/-- The override of a rule depends only on the entries for that rule of that engine. -/
theorem override_congr {c c' : Config} {engine rule : String} (hc : c.Keyed) (hc' : c'.Keyed)
    (h : ∀ o, c'.Overrides engine rule o ↔ c.Overrides engine rule o) :
    c'.override engine rule = c.override engine rule := by
  by_cases hsome : ∃ o, c.Overrides engine rule o
  · obtain ⟨o, ho⟩ := hsome
    rw [override_of_overrides hc ho, override_of_overrides hc' ((h o).mpr ho)]
  · have hnone : ∀ o, ¬ c.Overrides engine rule o := fun o ho => hsome ⟨o, ho⟩
    rw [override_of_absent hnone, override_of_absent fun o ho => hnone o ((h o).mp ho)]

end Config

/-- The rule is the described one, with the severity and the tags that the configuration gives for this rule
of this engine, or else its own. -/
structure Rule.Shows (c : Config) (engine : String) (d : RuleDescription) (r : Rule) : Prop where
  of : r.engine = engine
  name : r.name = d.name
  type : r.description.type = d.type
  description : r.description.description = d.description
  resourceUrls : r.resourceUrls = d.resourceUrls
  overridden : ∀ o, c.Overrides engine d.name o →
    r.severity = o.severity.getD d.severity ∧ r.tags = o.tags.getD d.tags
  own : (∀ o, ¬ c.Overrides engine d.name o) → r.severity = d.severity ∧ r.tags = d.tags

theorem Config.ruleOf_shows {c : Config} (hc : c.Keyed) (engine : String) (d : RuleDescription) :
    (c.ruleOf engine d).Shows c engine d where
  of := rfl
  name := rfl
  type := rfl
  description := rfl
  resourceUrls := rfl
  overridden o ho := by
    rw [← Config.override_of_overrides hc ho]
    exact ⟨rfl, rfl⟩
  own hnone := by
    have hempty := Config.override_of_absent hnone
    unfold Config.ruleOf Rule.severity Rule.tags RuleDescription.overriddenBy
    rw [hempty]
    exact ⟨rfl, rfl⟩

namespace Analyzer

/-- The engine answers with these descriptions. -/
def Describes (a : Analyzer) (w : Workspace) (engine : String) (ds : List RuleDescription) : Prop :=
  ∃ x, (a.answer w engine).outcome = .ok x ∧ x.Reads ds

/-- How listing the rules of an engine can fail: the engine raises, its descriptions are malformed, it repeats
a name, or a listener raises on an override event. -/
inductive Fails (a : Analyzer) (w : Workspace) (engine : String) : Fault → Prop
  | raises {f : Fault} (h : (a.answer w engine).outcome = .error f) : Fails a w engine f
  | malformed {x : Described} {f : Fault} (h : (a.answer w engine).outcome = .ok x)
      (hbad : checkDescribed engine x = .error f) : Fails a w engine f
  | repeated {ds : List RuleDescription} {rule : String} (h : a.Describes w engine ds)
      (htwice : 1 < (ds.map RuleDescription.name).count rule) :
      Fails a w engine (.contract (.repeatedRule engine rule))
  | refused {ds : List RuleDescription} {tick : Nat} {f : Fault} (h : a.Describes w engine ds)
      (hnodup : (ds.map RuleDescription.name).Nodup) (htick : a.clock ≤ tick)
      (hrefusal : a.firstRefusal (stamped tick (a.config.overrides engine ds)) = some f) : Fails a w engine f

section

variable {a : Analyzer} {w : Workspace} {engine : String} {ds : List RuleDescription} {f : Fault} {tick : Nat}

/-! ## One engine -/

theorem Describes.unique {ds' : List RuleDescription} (h : a.Describes w engine ds)
    (h' : a.Describes w engine ds') : ds = ds' := by
  obtain ⟨x, hx, hreads⟩ := h
  obtain ⟨x', hx', hreads'⟩ := h'
  have hsame : x = x' := Except.ok.inj (hx.symm.trans hx')
  subst hsame
  rw [← @checkDescribed_eq_ok_iff engine] at hreads hreads'
  exact Except.ok.inj (hreads.symm.trans hreads')

theorem Describes.described_eq (h : a.Describes w engine ds) :
    a.described w engine =
      match repeatedName? [] ds with
      | some rule => .error (.contract (.repeatedRule engine rule))
      | none => .ok ds := by
  obtain ⟨x, hx, hreads⟩ := h
  have hchecked : (a.answer w engine).outcome.bind (checkDescribed engine) = .ok ds := by
    rw [hx]
    exact checkDescribed_eq_ok_iff.mpr hreads
  cases hrepeated : repeatedName? [] ds with
  | none => simp only [described, hchecked, hrepeated]
  | some rule => simp only [described, hchecked, hrepeated]

/-- No name is repeated if and only if the names are distinct. -/
theorem repeatedName?_nil_eq_none_iff : repeatedName? [] ds = none ↔ (ds.map RuleDescription.name).Nodup := by
  simp [repeatedName?_eq_none_iff]

/-- The rules are listed if and only if there are descriptions and no listener raises on their override
events. -/
theorem listing_eq_ok_iff {rules : List Rule} :
    a.listing tick w engine = .ok rules ↔
      ∃ ds, a.described w engine = .ok ds ∧
        a.firstRefusal (stamped tick (a.config.overrides engine ds)) = none ∧
        rules = ds.map (a.config.ruleOf engine) := by
  unfold listing
  cases a.described w engine with
  | error g => simp [Except.bind]
  | ok ds =>
    cases hrefusal : a.firstRefusal (stamped tick (a.config.overrides engine ds)) with
    | none => simp [Except.bind, Except.map, outcomeOf, hrefusal, eq_comm]
    | some g => simp [Except.bind, Except.map, outcomeOf, hrefusal]

/-- The rules are not listed if and only if there are no descriptions, or a listener raises on an override
event. -/
theorem listing_eq_error_iff :
    a.listing tick w engine = .error f ↔
      a.described w engine = .error f ∨
        ∃ ds, a.described w engine = .ok ds ∧
          a.firstRefusal (stamped tick (a.config.overrides engine ds)) = some f := by
  unfold listing
  cases a.described w engine with
  | error g => simp [Except.bind]
  | ok ds =>
    cases hrefusal : a.firstRefusal (stamped tick (a.config.overrides engine ds)) with
    | none => simp [Except.bind, Except.map, outcomeOf, hrefusal]
    | some g => simp [Except.bind, Except.map, outcomeOf, hrefusal]

theorem listing_of_describes (h : a.Describes w engine ds) (hnodup : (ds.map RuleDescription.name).Nodup)
    (hquiet : a.TakesAll (a.config.overrides engine ds)) (tick : Nat) :
    a.listing tick w engine = .ok (ds.map (a.config.ruleOf engine)) ∧
      a.listingEvents tick w engine = a.config.overrides engine ds := by
  have hdescribed : a.described w engine = .ok ds := by
    rw [h.described_eq, repeatedName?_nil_eq_none_iff.mpr hnodup]
  refine ⟨listing_eq_ok_iff.mpr ⟨ds, hdescribed, firstRefusal_of_takesAll hquiet tick, rfl⟩, ?_⟩
  unfold listingEvents
  rw [hdescribed]
  exact published_of_takesAll hquiet tick

theorem listing_of_repeated (h : a.Describes w engine ds)
    (htwice : ¬ (ds.map RuleDescription.name).Nodup) (tick : Nat) :
    ∃ f, a.listing tick w engine = .error f := by
  rw [← repeatedName?_nil_eq_none_iff] at htwice
  obtain ⟨rule, hrule⟩ := Option.ne_none_iff_exists'.mp htwice
  refine ⟨.contract (.repeatedRule engine rule), listing_eq_error_iff.mpr (.inl ?_)⟩
  rw [h.described_eq, hrule]

/-- All rules that are listed for an engine carry its name. -/
theorem engine_of_listing {rules : List Rule} (h : a.listing tick w engine = .ok rules) :
    ∀ r ∈ rules, r.engine = engine := by
  obtain ⟨ds, -, -, rfl⟩ := listing_eq_ok_iff.mp h
  intro r hr
  obtain ⟨d, -, rfl⟩ := List.mem_map.mp hr
  rfl

/-- Accepted descriptions were in the answer, under distinct names. -/
theorem describes_of_described (h : a.described w engine = .ok ds) :
    a.Describes w engine ds ∧ (ds.map RuleDescription.name).Nodup := by
  unfold described at h
  split at h
  · cases h
  · next ds' hchecked =>
    split at h
    · cases h
    · next hnone =>
      cases h
      cases hanswer : (a.answer w engine).outcome with
      | error g =>
        rw [hanswer] at hchecked
        cases hchecked
      | ok x =>
        rw [hanswer] at hchecked
        exact ⟨⟨x, hanswer, checkDescribed_eq_ok_iff.mp hchecked⟩,
          repeatedName?_nil_eq_none_iff.mp hnone⟩

/-- An engine without accepted descriptions fails. -/
theorem fails_of_described (h : a.described w engine = .error f) : a.Fails w engine f := by
  cases hanswer : (a.answer w engine).outcome with
  | error g =>
    unfold described at h
    rw [hanswer] at h
    cases h
    exact .raises hanswer
  | ok x =>
    cases hchecked : checkDescribed engine x with
    | error g =>
      unfold described at h
      simp only [hanswer, Except.bind, hchecked] at h
      cases h
      exact .malformed hanswer hchecked
    | ok ds =>
      have hdescribes : a.Describes w engine ds := ⟨x, hanswer, checkDescribed_eq_ok_iff.mp hchecked⟩
      rw [hdescribes.described_eq] at h
      cases hrepeated : repeatedName? [] ds with
      | none =>
        rw [hrepeated] at h
        cases h
      | some rule =>
        rw [hrepeated] at h
        cases h
        exact .repeated hdescribes (count_of_repeatedName? hrepeated).1

/-- A failure to list the rules of an engine is one of `Fails`. -/
theorem fails_of_listing (htick : a.clock ≤ tick) (h : a.listing tick w engine = .error f) :
    a.Fails w engine f := by
  rcases listing_eq_error_iff.mp h with hdescribed | ⟨ds, hdescribed, hrefusal⟩
  · exact fails_of_described hdescribed
  · obtain ⟨hdescribes, hnodup⟩ := describes_of_described hdescribed
    exact .refused hdescribes hnodup htick hrefusal

/-- The rules that an engine describes, or none if its descriptions are not accepted. -/
def describedBy (a : Analyzer) (w : Workspace) (engine : String) : List Rule :=
  ((a.described w engine).toOption.getD []).map (a.config.ruleOf engine)

/-- The listed rules are the described ones, whatever the reading of the clock. -/
theorem describedBy_of_listing {rules : List Rule} (h : a.listing tick w engine = .ok rules) :
    a.describedBy w engine = rules := by
  obtain ⟨ds, hds, -, rfl⟩ := listing_eq_ok_iff.mp h
  rw [describedBy, hds]
  rfl

end

/-! ## All engines -/

/-- The engines in the order in which their answers arrive. -/
def describeOrder (a : Analyzer) (w : Workspace) : List String :=
  Work.doneOrder (a.roundLimit w + 1) (fun engine => (a.answer w engine).rounds) a.engineNames

theorem describeOrder_perm (a : Analyzer) (w : Workspace) : (a.describeOrder w).Perm a.engineNames :=
  Work.doneOrder_perm _ _ _

/-- The engines in the order in which their answers arrive, each with the events before. -/
def describings (a : Analyzer) (w : Workspace) : List (String × List (Event LogLevel)) :=
  Work.occasions (a.eventsAfter w) [] (a.describeOrder w)

/-- The events while all engines describe their rules. -/
def describingEvents (a : Analyzer) (w : Workspace) : List (Event LogLevel) :=
  Work.eventsOn (a.eventsAfter w) (a.describings w)

theorem map_fst_describings (a : Analyzer) (w : Workspace) :
    (a.describings w).map Prod.fst = a.describeOrder w :=
  Work.map_fst_occasions _ _ _

/-- Each engine describes its rules on one occasion. -/
theorem mem_engineNames_iff_describings {a : Analyzer} {w : Workspace} {engine : String} :
    engine ∈ a.engineNames ↔ ∃ prior, (engine, prior) ∈ a.describings w := by
  rw [← (describeOrder_perm a w).mem_iff, ← map_fst_describings, List.mem_map]
  constructor
  · rintro ⟨⟨_, prior⟩, hprior, rfl⟩
    exact ⟨prior, hprior⟩
  · rintro ⟨prior, hprior⟩
    exact ⟨_, hprior, rfl⟩

/-- `rulesIn` run alone: the rules of all engines in their order, or the failure of the first engine to fail. -/
theorem rulesIn_drive (a : Analyzer) (w : Workspace) :
    ∃ outcome b, (rulesIn w).drive a = (outcome, b) ∧ Asked (a.describingEvents w) a b ∧
      (∀ rules : String → List Rule,
        (∀ o ∈ a.describings w, a.listingAfter w o.1 o.2 = .ok (rules o.1)) →
          outcome = .ok (a.engineNames.flatMap rules)) ∧
      ∀ f, (a.describings w).findSome? (fun o => Work.faultOf (a.listingAfter w o.1 o.2)) = some f →
        outcome = .error f := by
  have hends : ∀ engine ∈ a.engineNames, Work.EndsAfter asking a (a.listingAfter w engine)
      (a.eventsAfter w engine) (a.answer w engine).rounds (describeEngine w engine) :=
    fun engine _ => describeEngine_endsAfter a w engine
  obtain ⟨outcome, b, hdrive, hasked, hall, hfirst⟩ := Work.gather_drive (a.roundLimit w + 1) hends
  have hjoined : (rulesIn w).drive a = (outcome.map List.flatten, b) := by
    show ((Work.gather _ _).bind fun perEngine => pure perEngine.flatten).drive a = _
    rw [Work.drive_bind, hdrive]
    cases outcome <;> rfl
  refine ⟨_, b, hjoined, hasked, fun rules hrules => ?_, fun f hf => ?_⟩
  · have hlists : List.Forall₂ (fun engine rs => ∀ prior, (engine, prior) ∈ a.describings w →
        a.listingAfter w engine prior = .ok rs) a.engineNames (a.engineNames.map rules) := by
      rw [List.forall₂_map_right_iff]
      exact List.forall₂_same.mpr fun engine _ prior hprior => hrules _ hprior
    rw [hall _ hlists, List.flatMap_def]
    rfl
  · rw [hfirst f hf]
    rfl

/-- If no engine fails, the rules of each are the described ones. -/
theorem listed_of_findSome?_eq_none {a : Analyzer} {w : Workspace}
    (h : (a.describings w).findSome? (fun o => Work.faultOf (a.listingAfter w o.1 o.2)) = none) :
    ∀ o ∈ a.describings w, a.listingAfter w o.1 o.2 = .ok (a.describedBy w o.1) := by
  intro o ho
  obtain ⟨rules, hrules⟩ := Work.faultOf_eq_none_iff.mp (List.findSome?_eq_none_iff.mp h o ho)
  rw [hrules, describedBy_of_listing hrules]

/-- `rulesIn` gives the rules of all engines, or the failure of one. -/
theorem rulesIn_cases (a : Analyzer) (w : Workspace) :
    ∃ outcome b, (rulesIn w).drive a = (outcome, b) ∧ Asked (a.describingEvents w) a b ∧
      ((∃ rules : String → List Rule,
          (∀ o ∈ a.describings w, a.listingAfter w o.1 o.2 = .ok (rules o.1)) ∧
          outcome = .ok (a.engineNames.flatMap rules)) ∨
        ∃ o ∈ a.describings w, ∃ f, a.listingAfter w o.1 o.2 = .error f ∧ outcome = .error f) := by
  obtain ⟨outcome, b, hdrive, hasked, hall, hfirst⟩ := rulesIn_drive a w
  refine ⟨outcome, b, hdrive, hasked, ?_⟩
  cases hfault : (a.describings w).findSome? (fun o => Work.faultOf (a.listingAfter w o.1 o.2)) with
  | some f =>
    obtain ⟨o, ho, hlisting⟩ := List.exists_of_findSome?_eq_some hfault
    exact .inr ⟨o, ho, f, Work.faultOf_eq_some_iff.mp hlisting, hfirst f hfault⟩
  | none =>
    have hlisted := listed_of_findSome?_eq_none hfault
    exact .inl ⟨_, hlisted, hall _ hlisted⟩

/-- `select` in a given workspace gives a selection from the rules of all engines, or the failure of one. -/
theorem select_cases {start a : Analyzer} {choice : Option Workspace} {w : Workspace}
    (selectors : List String) (hchoice : (workspaceOr choice).drive start = (.ok w, a)) :
    ∃ outcome b, (select selectors choice).drive start = (outcome, b) ∧ Asked (a.describingEvents w) a b ∧
      ((∃ rules : String → List Rule,
          (∀ o ∈ a.describings w, a.listingAfter w o.1 o.2 = .ok (rules o.1)) ∧
          outcome = .ok (Selection.select (a.engineNames.flatMap rules) selectors)) ∨
        ∃ o ∈ a.describings w, ∃ f, a.listingAfter w o.1 o.2 = .error f ∧ outcome = .error f) := by
  obtain ⟨outcome, b, hdrive, hasked, hcases⟩ := rulesIn_cases a w
  have hselected : (select selectors choice).drive start =
      (outcome.map fun rules => Selection.select rules selectors, b) := by
    show (((workspaceOr choice).bind rulesIn).bind fun rules =>
      pure (Selection.select rules selectors)).drive start = _
    rw [Work.drive_bind, Work.drive_bind, hchoice]
    simp only [hdrive]
    cases outcome <;> rfl
  refine ⟨_, b, hselected, hasked, ?_⟩
  rcases hcases with ⟨rules, hrules, rfl⟩ | ⟨o, ho, f, hf, rfl⟩
  · exact .inl ⟨rules, hrules, rfl⟩
  · exact .inr ⟨o, ho, f, hf, rfl⟩

/-- All engines describe their rules under distinct names. -/
def DescribesAll (a : Analyzer) (w : Workspace) (ds : String → List RuleDescription) : Prop :=
  ∀ engine ∈ a.engineNames,
    a.Describes w engine (ds engine) ∧ ((ds engine).map RuleDescription.name).Nodup

/-- The override events of engines in some order, for these descriptions. -/
def overridesOf (a : Analyzer) (ds : String → List RuleDescription) (engines : List String) :
    List (Event LogLevel) :=
  engines.flatMap fun engine => a.config.overrides engine (ds engine)

/-- All descriptions with their engines, in the order in which rules are listed. -/
def describedRules (a : Analyzer) (ds : String → List RuleDescription) :
    List (String × RuleDescription) :=
  a.engineNames.flatMap fun engine => (ds engine).map fun d => (engine, d)

/-- `rulesIn` if all engines answer with these descriptions and no listener raises: the rules are listed in
the order of the engines and of their descriptions, and each override event is emitted once. -/
theorem rulesIn_of_describesAll {a : Analyzer} {w : Workspace} {ds : String → List RuleDescription}
    (hall : a.DescribesAll w ds) (hquiet : a.TakesAll (a.overridesOf ds a.engineNames)) :
    ∃ b, (rulesIn w).drive a =
        (.ok ((a.describedRules ds).map fun x => a.config.ruleOf x.1 x.2), b) ∧
      Asked (a.overridesOf ds (a.describeOrder w)) a b ∧
      b.heard = a.heard ++ a.bus.deliveries (stamped a.clock (a.overridesOf ds (a.describeOrder w))) := by
  obtain ⟨outcome, b, hdrive, hasked, hok, -⟩ := rulesIn_drive a w
  have hmem : ∀ engine, engine ∈ a.describeOrder w ↔ engine ∈ a.engineNames :=
    fun engine => (describeOrder_perm a w).mem_iff
  have hlisting : ∀ engine ∈ a.engineNames, ∀ prior,
      a.listingAfter w engine prior = .ok ((ds engine).map (a.config.ruleOf engine)) ∧
        a.eventsAfter w engine prior = a.config.overrides engine (ds engine) := by
    intro engine hengine prior
    obtain ⟨hdescribes, hnodup⟩ := hall engine hengine
    refine listing_of_describes hdescribes hnodup (fun e he => hquiet e ?_) _
    exact List.mem_flatMap.mpr ⟨engine, hengine, he⟩
  have hthere : ∀ o ∈ a.describings w, o.1 ∈ a.engineNames := fun o ho =>
    mem_engineNames_iff_describings.mpr ⟨o.2, ho⟩
  have hevents : a.describingEvents w = a.overridesOf ds (a.describeOrder w) := by
    rw [describingEvents, Work.eventsOn, overridesOf, ← map_fst_describings, List.flatMap_map]
    exact List.flatMap_congr fun o ho => (hlisting o.1 (hthere o ho) o.2).2
  have hrules : outcome = .ok (a.engineNames.flatMap fun engine =>
      (ds engine).map (a.config.ruleOf engine)) :=
    hok _ fun o ho => (hlisting o.1 (hthere o ho) o.2).1
  rw [hevents] at hasked
  refine ⟨b, ?_, hasked, ?_⟩
  · rw [hdrive, hrules, describedRules, List.map_flatMap]
    simp only [List.map_map]
    rfl
  · rw [hasked.heard, deliveriesOf_takesAll]
    intro e he
    obtain ⟨engine, hengine, he⟩ := List.mem_flatMap.mp he
    exact hquiet e (List.mem_flatMap.mpr ⟨engine, (hmem engine).mp hengine, he⟩)

/-- The catalogue for these descriptions: no rule is added, dropped or repeated, each override has one event,
and overrides of other rules make no difference. -/
structure Lists (a : Analyzer) (w : Workspace) (ds : String → List RuleDescription)
    (outcome : Except Fault (List Rule)) (b : Analyzer) : Prop where
  rules : ∃ rules, outcome = .ok rules ∧
    List.Forall₂ (fun x r => r.Shows a.config x.1 x.2) (a.describedRules ds) rules
  events : ∃ order, order.Perm a.engineNames ∧
    b.clock = a.clock + (a.overridesOf ds order).length ∧
    b.heard = a.heard ++ a.bus.deliveries (stamped a.clock (a.overridesOf ds order))
  indifferent : ∀ c : Config, c.Keyed →
    (∀ x ∈ a.describedRules ds, ∀ o, c.Overrides x.1 x.2.name o ↔ a.config.Overrides x.1 x.2.name o) →
      ∃ b', (rulesIn w).drive { a with config := c } = (outcome, b') ∧ b'.clock = b.clock ∧
        b'.heard = b.heard

/-- Overrides of rules that no engine describes make no difference. -/
theorem describedRules_congr {a : Analyzer} {ds : String → List RuleDescription} {c : Config}
    (hkeyed : a.config.Keyed) (hc : c.Keyed)
    (h : ∀ x ∈ a.describedRules ds, ∀ o, c.Overrides x.1 x.2.name o ↔ a.config.Overrides x.1 x.2.name o) :
    (a.describedRules ds).map (fun x => c.ruleOf x.1 x.2) =
        (a.describedRules ds).map (fun x => a.config.ruleOf x.1 x.2) ∧
      ∀ engine ∈ a.engineNames, c.overrides engine (ds engine) = a.config.overrides engine (ds engine) := by
  have hlookup : ∀ engine ∈ a.engineNames, ∀ d ∈ ds engine,
      c.override engine d.name = a.config.override engine d.name := by
    intro engine hengine d hd
    refine Config.override_congr hkeyed hc (h (engine, d) ?_)
    exact List.mem_flatMap.mpr ⟨engine, hengine, List.mem_map_of_mem hd⟩
  constructor
  · refine List.map_congr_left fun x hx => ?_
    obtain ⟨engine, hengine, hx⟩ := List.mem_flatMap.mp hx
    obtain ⟨d, hd, rfl⟩ := List.mem_map.mp hx
    simp only [Config.ruleOf, hlookup engine hengine d hd]
  · intro engine hengine
    refine List.flatMap_congr fun d hd => ?_
    rw [hlookup engine hengine d hd]

theorem lists_of_describesAll {a : Analyzer} {w : Workspace} {ds : String → List RuleDescription}
    (hkeyed : a.config.Keyed) (hall : a.DescribesAll w ds)
    (hquiet : a.TakesAll (a.overridesOf ds a.engineNames)) {outcome : Except Fault (List Rule)}
    {b : Analyzer} (hdrive : (rulesIn w).drive a = (outcome, b)) : a.Lists w ds outcome b := by
  obtain ⟨b', hdrive', hasked, hheard⟩ := rulesIn_of_describesAll hall hquiet
  obtain ⟨houtcome, rfl⟩ := Prod.mk.inj (hdrive.symm.trans hdrive')
  refine ⟨⟨_, houtcome, ?_⟩, ⟨_, describeOrder_perm a w, hasked.clock, hheard⟩, ?_⟩
  · rw [List.forall₂_map_right_iff]
    exact List.forall₂_same.mpr fun x _ => Config.ruleOf_shows hkeyed x.1 x.2
  · intro c hc hagree
    obtain ⟨hrules, hevents⟩ := describedRules_congr hkeyed hc hagree
    have hsame : ∀ order, order.Perm a.engineNames →
        ({ a with config := c } : Analyzer).overridesOf ds order = a.overridesOf ds order :=
      fun order horder => List.flatMap_congr fun engine hengine =>
        hevents engine (horder.mem_iff.mp hengine)
    obtain ⟨b', hdrive', hasked', hheard'⟩ := rulesIn_of_describesAll (a := { a with config := c }) hall
      (by rw [show ({ a with config := c } : Analyzer).engineNames = a.engineNames from rfl,
        hsame _ (.refl _)]; exact hquiet)
    have horder : ({ a with config := c } : Analyzer).describeOrder w = a.describeOrder w := rfl
    rw [horder, hsame _ (describeOrder_perm a w)] at hasked' hheard'
    refine ⟨b', ?_, hasked'.clock.trans hasked.clock.symm, hheard'.trans hheard.symm⟩
    rw [hdrive', houtcome]
    exact congrArg (fun rules => (Except.ok rules, b')) hrules

/-- `rulesIn`, in whatever order the answers of the engines arrive. If every engine describes its rules under
distinct names and no listener raises on an override event, all rules are listed as `Lists` says. If an engine
repeats a name the listing fails, with the failure of an engine; and if nothing else fails, this is
`repeatedRule` for an engine and a name that it repeats. -/
theorem rulesIn_lists (a : Analyzer) (w : Workspace) :
    ∃ outcome b, (rulesIn w).drive a = (outcome, b) ∧
      (∀ ds, a.config.Keyed → a.DescribesAll w ds → a.TakesAll (a.overridesOf ds a.engineNames) →
        a.Lists w ds outcome b) ∧
      ((∃ engine ∈ a.engineNames, ∃ ds, a.Describes w engine ds ∧
          ¬ (ds.map RuleDescription.name).Nodup) →
        ∃ f, outcome = .error f ∧ ∃ engine ∈ a.engineNames, a.Fails w engine f) ∧
      ∀ ds : String → List RuleDescription,
        (∀ engine ∈ a.engineNames, a.Describes w engine (ds engine)) →
        (∀ engine ∈ a.engineNames, ((ds engine).map RuleDescription.name).Nodup →
          a.TakesAll (a.config.overrides engine (ds engine))) →
        (∃ engine ∈ a.engineNames, ¬ ((ds engine).map RuleDescription.name).Nodup) →
          ∃ engine ∈ a.engineNames, ∃ rule, outcome = .error (.contract (.repeatedRule engine rule)) ∧
            1 < ((ds engine).map RuleDescription.name).count rule := by
  obtain ⟨outcome, b, hdrive, -, hcases⟩ := rulesIn_cases a w
  have hfails : (∃ engine ∈ a.engineNames, ∃ ds, a.Describes w engine ds ∧
      ¬ (ds.map RuleDescription.name).Nodup) →
        ∃ f, outcome = .error f ∧ ∃ engine ∈ a.engineNames, a.Fails w engine f := by
    intro hrepeats
    obtain ⟨engine, hengine, ds, hdescribes, htwice⟩ := hrepeats
    rcases hcases with ⟨rules, hrules, -⟩ | ⟨o, ho, g, hg, houtcome⟩
    · obtain ⟨prior, hprior⟩ := mem_engineNames_iff_describings.mp hengine
      obtain ⟨f, hf⟩ := listing_of_repeated hdescribes htwice (a.clock + prior.length)
      have hok := hrules _ hprior
      rw [listingAfter, hf] at hok
      cases hok
    · exact ⟨g, houtcome, o.1, mem_engineNames_iff_describings.mpr ⟨o.2, ho⟩,
        fails_of_listing (Nat.le_add_right _ _) hg⟩
  refine ⟨outcome, b, hdrive, fun ds hkeyed hall hquiet => lists_of_describesAll hkeyed hall hquiet hdrive,
    hfails, ?_⟩
  intro ds hdescribes hquiet hrepeats
  obtain ⟨engine, hengine, htwice⟩ := hrepeats
  obtain ⟨f, hf, e, he, hreason⟩ := hfails ⟨engine, hengine, _, hdescribes engine hengine, htwice⟩
  -- only one of the cases of `Fails` is left
  refine ⟨e, he, ?_⟩
  obtain ⟨x, hx, hreads⟩ := hdescribes e he
  cases hreason with
  | raises hraises =>
    rw [hraises] at hx
    cases hx
  | malformed hanswer hbad =>
    cases Except.ok.inj (hanswer.symm.trans hx)
    rw [checkDescribed_eq_ok_iff.mpr hreads] at hbad
    cases hbad
  | repeated hd hcount => exact ⟨_, hf, hd.unique (hdescribes e he) ▸ hcount⟩
  | refused hd hnodup _ hrefusal =>
    cases hd.unique (hdescribes e he)
    rw [firstRefusal_of_takesAll (hquiet e he hnodup)] at hrefusal
    cases hrefusal

/-! ## Sample catalogues -/

/-- An engine with a fixed answer. -/
def answering (name : String) (answer : Delayed Json) : Engine :=
  .external
    { name := .ok name
      describe := fun _ => answer
      run := fun _ _ => { report := .ok (.findings []) } }

/-- An analyzer with engines with fixed answers. -/
def withAnswers (config : Config) (answers : List (String × Delayed Json)) : Analyzer where
  host := ⟨.folder [], [], "/home/user", []⟩
  config := config
  slots := .ofList (answers.map fun x => (x.1, { engine := answering x.1 x.2, config := [] }))

/-- The JSON value of one rule. -/
def tabData : Json := .obj [("name", .str "Tab"), ("severity_level", .int 4)]

def tab : RuleDescription := { name := "Tab", severity := .low }

theorem tab_written : tab.Written tabData := (Schema.ruleDescription_good_iff _ _).mp rfl

/-- A configuration that overrides the severity of the rule of one engine, and mentions an engine that is not
registered. -/
def tabConfig : Config where
  rules := [("late", [("Tab", { severity := some .high })]), ("none", [("Tab", { tags := some [] })])]

def anywhere : Workspace := ⟨0, "workspace1", ["/"]⟩

/-- Two engines with a rule of the same name, of which the first one answers last. -/
def twoTabs : Analyzer :=
  withAnswers tabConfig [("late", ⟨1, .ok (.arr [tabData])⟩), ("early", ⟨0, .ok (.arr [tabData])⟩)]

theorem twoTabs_describesAll : twoTabs.DescribesAll anywhere fun _ => [tab] := by
  intro engine hengine
  have hnodup : ([tab].map RuleDescription.name).Nodup := by decide
  refine ⟨⟨.data (.arr [tabData]), ?_, [tabData], rfl, .cons tab_written .nil⟩, hnodup⟩
  have hcases : engine = "late" ∨ engine = "early" := by
    have hnames : twoTabs.engineNames = ["late", "early"] := rfl
    simpa [hnames] using hengine
  rcases hcases with rfl | rfl <;> rfl

/-- Both engines describe a rule `Tab`, and the one of the first engine, which answers last, is overridden. -/
theorem rulesIn_lists_twoTabs :
    ∃ outcome b, (rulesIn anywhere).drive twoTabs = (outcome, b) ∧
      twoTabs.Lists anywhere (fun _ => [tab]) outcome b ∧
      outcome = .ok [⟨"late", { tab with severity := .high }⟩, ⟨"early", tab⟩] := by
  obtain ⟨outcome, b, hdrive, hlists, -⟩ := rulesIn_lists twoTabs anywhere
  have hkeyed : twoTabs.config.Keyed := by
    unfold Config.Keyed
    decide
  have hquiet : twoTabs.TakesAll (twoTabs.overridesOf (fun _ => [tab]) twoTabs.engineNames) := by
    intro e _ tick k hk
    cases hk
  have houtcome := congrArg Prod.fst hdrive
  exact ⟨outcome, b, hdrive, hlists _ hkeyed twoTabs_describesAll hquiet, houtcome.symm⟩

/-- An engine that raises, before one that repeats a name. -/
def brokenFirst : Analyzer :=
  withAnswers {} [("broken", ⟨0, .error (.raised .runtime "Out of order.")⟩),
    ("double", ⟨0, .ok (.arr [tabData, tabData])⟩)]

/-- The same engines, and a listener to the log that raises on everything. -/
def twoTabsRefused : Analyzer :=
  { twoTabs with
    bus := ⟨[(.log, 0)]⟩
    refusal := fun _ _ => some (.raised .listener "Not now.") }

/-- The failure of another engine comes before that of a repeated name; and a fault of a listener on an
override event ends the listing although all names are distinct. -/
theorem rulesIn_fails_otherwise :
    (∃ ds, brokenFirst.Describes anywhere "double" ds ∧ ¬ (ds.map RuleDescription.name).Nodup) ∧
      ((rulesIn anywhere).drive brokenFirst).1 = .error (.raised .runtime "Out of order.") ∧
      twoTabsRefused.DescribesAll anywhere (fun _ => [tab]) ∧
      ((rulesIn anywhere).drive twoTabsRefused).1 = .error (.raised .listener "Not now.") := by
  refine ⟨⟨[tab, tab], ?_, by decide⟩, rfl, twoTabs_describesAll, rfl⟩
  exact ⟨.data (.arr [tabData, tabData]), rfl, [tabData, tabData], rfl,
    .cons tab_written (.cons tab_written .nil)⟩

end Analyzer

end Polyscan
