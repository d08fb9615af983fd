import Polyscan.Proofs.Catalogue.Listing
import Polyscan.Proofs.Selection

/-!
Selections that are made twice. A selection depends on the descriptions of the engines, on the configuration
and on the faults of listeners; if these are the same both times, so is the selection. If it fails, it fails
both times, with the same failure if the engines take equally many rounds.
-/
namespace Polyscan

namespace Work

variable {ι : Type}

/-- The order in which items finish depends on their delays only. -/
theorem doneOrder_congr (limit : Nat) {items : List ι} {delay delay' : ι → Nat}
    (h : ∀ x ∈ items, delay' x = delay x) : doneOrder limit delay' items = doneOrder limit delay items := by
  induction limit generalizing items delay delay' with
  | zero => rfl
  | succ limit ih =>
    have hdone : (items.filter fun x => delay' x = 0) = items.filter fun x => delay x = 0 :=
      List.filter_congr fun x hx => by rw [h x hx]
    have hleft : (items.filter fun x => ¬ delay' x = 0) = items.filter fun x => ¬ delay x = 0 :=
      List.filter_congr fun x hx => by rw [h x hx]
    rw [doneOrder, doneOrder, hdone, hleft]
    congr 1
    exact ih fun x hx => by rw [h x (List.mem_filter.mp hx).1]

end Work

namespace Analyzer

open Work

variable {a b : Analyzer} {paths : List String}

/-! ## Catalogues -/

/-- The rules of all engines in a workspace, or the failure of the first engine to fail. -/
def catalogue (a : Analyzer) (w : Workspace) : Except Fault (List Rule) :=
  match (a.describings w).findSome? fun o => faultOf (a.listingAfter w o.1 o.2) with
  | some f => .error f
  | none => .ok (a.engineNames.flatMap (a.describedBy w))

theorem catalogue_eq_error_iff {w : Workspace} {f : Fault} :
    a.catalogue w = .error f ↔
      ((a.describings w).findSome? fun o => faultOf (a.listingAfter w o.1 o.2)) = some f := by
  unfold catalogue
  split
  · next g hg => rw [hg, Except.error.injEq, Option.some.injEq]
  · next hnone => simp [hnone]

theorem catalogue_eq_ok {w : Workspace} {rules : List Rule} (h : a.catalogue w = .ok rules) :
    ∃ rulesOf : String → List Rule, rules = a.engineNames.flatMap rulesOf ∧
      ∀ engine ∈ a.engineNames, ∃ tick, a.listing tick w engine = .ok (rulesOf engine) := by
  unfold catalogue at h
  split at h
  · cases h
  · next hnone =>
    cases h
    refine ⟨_, rfl, fun engine hengine => ?_⟩
    obtain ⟨prior, hprior⟩ := mem_engineNames_iff_describings.mp hengine
    exact ⟨_, listed_of_findSome?_eq_none hnone _ hprior⟩

theorem catalogue_of_listing {w : Workspace} {rulesOf : String → List Rule}
    (h : ∀ engine ∈ a.engineNames, ∀ tick, a.listing tick w engine = .ok (rulesOf engine)) :
    a.catalogue w = .ok (a.engineNames.flatMap rulesOf) := by
  have hnone : ((a.describings w).findSome? fun o => faultOf (a.listingAfter w o.1 o.2)) = none := by
    refine List.findSome?_eq_none_iff.mpr fun o ho => ?_
    rw [listingAfter, h o.1 (mem_engineNames_iff_describings.mpr ⟨o.2, ho⟩)]
    rfl
  rw [catalogue, hnone]
  exact congrArg Except.ok (List.flatMap_congr fun engine hengine =>
    describedBy_of_listing (h engine hengine a.clock))

theorem rulesIn_catalogue (a : Analyzer) (w : Workspace) : ((rulesIn w).drive a).1 = a.catalogue w := by
  obtain ⟨outcome, b, hdrive, -, hall, hfirst⟩ := rulesIn_drive a w
  rw [hdrive, catalogue]
  cases hfault : (a.describings w).findSome? fun o => faultOf (a.listingAfter w o.1 o.2) with
  | some f => exact hfirst f hfault
  | none => exact hall _ (listed_of_findSome?_eq_none hfault)

theorem select_catalogue (a : Analyzer) (w : Workspace) (selectors : List String) :
    ((select selectors (some w)).drive a).1 =
      (a.catalogue w).map fun rules => Selection.select rules selectors := by
  rw [← rulesIn_catalogue]
  show (((rulesIn w).bind fun rules => pure (Selection.select rules selectors)).drive a).1 = _
  rw [drive_bind]
  rcases (rulesIn w).drive a with ⟨_ | rules, c⟩ <;> rfl

/-- All engines of a selection from the catalogue are registered. -/
theorem registered_of_catalogue {w : Workspace} {rules : List Rule} (h : a.catalogue w = .ok rules)
    (selectors : List String) :
    ∀ engine ∈ (Selection.select rules selectors).engineNames, engine ∈ a.engineNames := by
  intro engine hengine
  obtain ⟨rulesOf, rfl, hrules⟩ := catalogue_eq_ok h
  obtain ⟨r, hr⟩ := List.exists_mem_of_ne_nil _ ((Selection.filed_select _ _).nonempty engine hengine)
  obtain ⟨hmem, rfl⟩ := Selection.mem_of_mem_select hr
  obtain ⟨other, hother, hr⟩ := List.mem_flatMap.mp hmem
  obtain ⟨tick, hlisting⟩ := hrules other hother
  rw [engine_of_listing hlisting r hr]
  exact hother

theorem registered_of_select {w : Workspace} {selectors : List String} {selection : Selection}
    (h : ((select selectors (some w)).drive a).1 = .ok selection) :
    ∀ engine ∈ selection.engineNames, engine ∈ a.engineNames := by
  rw [select_catalogue] at h
  cases hcatalogue : a.catalogue w with
  | error f =>
    rw [hcatalogue] at h
    cases h
  | ok rules =>
    rw [hcatalogue] at h
    cases h
    exact registered_of_catalogue hcatalogue selectors

/-! ## New workspaces -/

/-- The workspace that is made next. -/
def nextWorkspace (a : Analyzer) (inputs : List String) : Workspace :=
  ⟨a.workspaces, (a.ids.next "workspace").1, inputs⟩

/-- Selects rules in a new workspace. -/
def selectAfresh (selectors paths : List String) : Work Analyzer Selection :=
  (Work.now (createWorkspace paths)).bind fun w => select selectors (some w)

variable {inputs : List String}

theorem createWorkspace_of_ok (h : Workspace.absoluteInputs a.host [] paths = .ok inputs) :
    createWorkspace paths a = (.ok (a.nextWorkspace inputs),
      { a with ids := (a.ids.next "workspace").2, workspaces := a.workspaces + 1 }) := by
  unfold createWorkspace
  dsimp only
  rw [h]
  rfl

theorem createWorkspace_of_error {f : Fault} (h : Workspace.absoluteInputs a.host [] paths = .error f) :
    createWorkspace paths a = (.error f, { a with ids := (a.ids.next "workspace").2 }) := by
  unfold createWorkspace
  dsimp only
  rw [h]

/-- The outcome of `selectAfresh`. -/
theorem selectAfresh_drive (a : Analyzer) (selectors paths : List String) :
    ((selectAfresh selectors paths).drive a).1 =
      (Workspace.absoluteInputs a.host [] paths).bind fun inputs =>
        (a.catalogue (a.nextWorkspace inputs)).map fun rules => Selection.select rules selectors := by
  rw [selectAfresh, drive_bind, drive_now]
  cases hinputs : Workspace.absoluteInputs a.host [] paths with
  | error f =>
    rw [createWorkspace_of_error hinputs]
    rfl
  | ok inputs =>
    rw [createWorkspace_of_ok hinputs]
    exact select_catalogue _ (a.nextWorkspace inputs) selectors

/-- The rules that `selectAfresh` selects are rules of the catalogue for the new workspace. -/
theorem catalogue_of_selectAfresh {selectors : List String} {selection : Selection}
    (h : ((selectAfresh selectors paths).drive a).1 = .ok selection) :
    ∃ inputs rules, Workspace.absoluteInputs a.host [] paths = .ok inputs ∧
      a.catalogue (a.nextWorkspace inputs) = .ok rules ∧ selection = Selection.select rules selectors := by
  rw [selectAfresh_drive] at h
  cases hinputs : Workspace.absoluteInputs a.host [] paths with
  | error f =>
    rw [hinputs] at h
    cases h
  | ok inputs =>
    rw [hinputs] at h
    cases hcatalogue : a.catalogue (a.nextWorkspace inputs) with
    | error f =>
      simp only [Except.bind, hcatalogue] at h
      cases h
    | ok rules =>
      simp only [Except.bind, hcatalogue] at h
      cases h
      exact ⟨inputs, rules, rfl, hcatalogue, rfl⟩

/-! ## Two selections -/

/-- Two analyzers with the same engines and the same configuration, on machines where the paths mean the same;
listeners raise on the same events, whatever the readings of the clock, and the engines describe the same for
a new workspace over the paths. -/
structure Peers (a b : Analyzer) (paths : List String) : Prop where
  names : b.engineNames = a.engineNames
  config : b.config = a.config
  refusals : ∀ e t t', b.refusalOf ⟨t', e⟩ = a.refusalOf ⟨t, e⟩
  inputs : Workspace.absoluteInputs b.host [] paths = Workspace.absoluteInputs a.host [] paths
  described : ∀ inputs, Workspace.absoluteInputs a.host [] paths = .ok inputs → ∀ engine ∈ a.engineNames,
    (b.answer (b.nextWorkspace inputs) engine).outcome = (a.answer (a.nextWorkspace inputs) engine).outcome

/-- Engines take equally many rounds to describe their rules for a new workspace over the paths. -/
def InStep (a b : Analyzer) (paths : List String) : Prop :=
  ∀ inputs, Workspace.absoluteInputs a.host [] paths = .ok inputs → ∀ engine ∈ a.engineNames,
    (b.answer (b.nextWorkspace inputs) engine).rounds = (a.answer (a.nextWorkspace inputs) engine).rounds

theorem Peers.refl (hrefusals : ∀ e t t', a.refusalOf ⟨t', e⟩ = a.refusalOf ⟨t, e⟩) (paths : List String) :
    a.Peers a paths :=
  ⟨rfl, rfl, hrefusals, rfl, fun _ _ _ _ => rfl⟩

/-- If faults of listeners do not depend on the clock, the first one does not. -/
theorem firstRefusal_congr (h : ∀ e t t', b.refusalOf ⟨t', e⟩ = a.refusalOf ⟨t, e⟩)
    (es : List (Event LogLevel)) (tick tick' : Nat) :
    b.firstRefusal (stamped tick' es) = a.firstRefusal (stamped tick es) := by
  induction es generalizing tick tick' with
  | nil => rfl
  | cons e rest ih =>
    have hrest := ih (tick + 1) (tick' + 1)
    unfold firstRefusal at hrest ⊢
    rw [stamped, stamped, List.findSome?_cons, List.findSome?_cons, h e tick tick', hrest]

theorem described_congr {w v : Workspace} {engine : String}
    (h : (b.answer v engine).outcome = (a.answer w engine).outcome) :
    b.described v engine = a.described w engine := by
  unfold described
  rw [h]

/-- The limit is the number of rounds of the slowest engine. -/
theorem roundLimit_eq (a : Analyzer) (w : Workspace) :
    a.roundLimit w = (a.engineNames.map fun engine => (a.answer w engine).rounds).foldl max 0 := by
  unfold roundLimit engineNames OrderedMap.keys OrderedMap.values
  rw [List.map_map, List.map_map]
  refine congrArg (fun rounds => List.foldl max 0 rounds) (List.map_congr_left fun x hx => ?_)
  have hslot : a.slots.get? x.1 = some x.2 := OrderedMap.get?_eq_some_iff.mpr hx
  simp only [Function.comp_apply, answer, hslot, Engine.answer]
  cases x.2.engine <;> rfl

namespace Peers

variable (h : a.Peers b paths)

include h

theorem symm : b.Peers a paths where
  names := h.names.symm
  config := h.config.symm
  refusals e t t' := (h.refusals e t' t).symm
  inputs := h.inputs.symm
  described inputs hinputs engine hengine :=
    (h.described inputs (h.inputs.symm.trans hinputs) engine (h.names ▸ hengine)).symm

variable (hinputs : Workspace.absoluteInputs a.host [] paths = .ok inputs)

include hinputs

theorem listing {engine : String} (hengine : engine ∈ a.engineNames) (tick tick' : Nat) :
    b.listing tick' (b.nextWorkspace inputs) engine = a.listing tick (a.nextWorkspace inputs) engine := by
  unfold Analyzer.listing
  simp only [described_congr (h.described inputs hinputs engine hengine), h.config,
    firstRefusal_congr h.refusals _ tick tick']

/-- The first failure of an engine does not depend on the events before its answer. -/
theorem findSome?_describings :
    ((a.describings (a.nextWorkspace inputs)).findSome? fun o =>
        faultOf (a.listingAfter (a.nextWorkspace inputs) o.1 o.2)) =
      (a.describeOrder (a.nextWorkspace inputs)).findSome? fun engine =>
        faultOf (a.listing 0 (a.nextWorkspace inputs) engine) := by
  rw [← map_fst_describings, List.findSome?_map]
  refine findSome?_congr fun o ho => ?_
  have hengine : o.1 ∈ a.engineNames := mem_engineNames_iff_describings.mpr ⟨o.2, ho⟩
  rw [listingAfter, ← h.listing hinputs hengine _ 0, h.listing hinputs hengine 0 0]
  rfl

/-- If the rules are listed once, the same rules are listed the second time. -/
theorem catalogue_ok {rules : List Rule} (hrules : a.catalogue (a.nextWorkspace inputs) = .ok rules) :
    b.catalogue (b.nextWorkspace inputs) = .ok rules := by
  obtain ⟨rulesOf, rfl, hlisting⟩ := catalogue_eq_ok hrules
  rw [← h.names]
  refine catalogue_of_listing fun engine hengine => ?_
  rw [h.names] at hengine
  obtain ⟨t, ht⟩ := hlisting engine hengine
  exact fun t' => (h.listing hinputs hengine t t').trans ht

theorem catalogue_error {f : Fault} (hf : a.catalogue (a.nextWorkspace inputs) = .error f) :
    ∃ g, b.catalogue (b.nextWorkspace inputs) = .error g := by
  cases hb : b.catalogue (b.nextWorkspace inputs) with
  | error g => exact ⟨g, rfl⟩
  | ok rules =>
    rw [h.symm.catalogue_ok (h.inputs.trans hinputs) hb] at hf
    cases hf

/-- If engines take equally many rounds, both listings have the same outcome. -/
theorem catalogue_eq (hstep : a.InStep b paths) :
    b.catalogue (b.nextWorkspace inputs) = a.catalogue (a.nextWorkspace inputs) := by
  have hpatience : b.roundLimit (b.nextWorkspace inputs) = a.roundLimit (a.nextWorkspace inputs) := by
    rw [roundLimit_eq, roundLimit_eq, h.names, List.map_congr_left (hstep inputs hinputs)]
  have horder : b.describeOrder (b.nextWorkspace inputs) = a.describeOrder (a.nextWorkspace inputs) := by
    rw [describeOrder, hpatience, h.names]
    exact doneOrder_congr _ (hstep inputs hinputs)
  have hfault : ((b.describings (b.nextWorkspace inputs)).findSome? fun o =>
        faultOf (b.listingAfter (b.nextWorkspace inputs) o.1 o.2)) =
      (a.describings (a.nextWorkspace inputs)).findSome? fun o =>
        faultOf (a.listingAfter (a.nextWorkspace inputs) o.1 o.2) := by
    rw [h.symm.findSome?_describings (h.inputs.trans hinputs), h.findSome?_describings hinputs, horder]
    refine findSome?_congr fun engine hengine => ?_
    rw [h.listing hinputs ((describeOrder_perm a _).mem_iff.mp hengine) 0 0]
  cases hcatalogue : a.catalogue (a.nextWorkspace inputs) with
  | ok rules => exact h.catalogue_ok hinputs hcatalogue
  | error f => rwa [catalogue_eq_error_iff, hfault, ← catalogue_eq_error_iff]

end Peers

/-- Selections in new workspaces over the same paths are equal, or both fail; the failure is the same if
engines take equally many rounds. -/
theorem Peers.select_agrees (h : a.Peers b paths) (selectors : List String) :
    (∃ selection, ((selectAfresh selectors paths).drive a).1 = .ok selection ∧
        ((selectAfresh selectors paths).drive b).1 = .ok selection) ∨
      ∃ f g, ((selectAfresh selectors paths).drive a).1 = .error f ∧
        ((selectAfresh selectors paths).drive b).1 = .error g ∧ (a.InStep b paths → f = g) := by
  rw [selectAfresh_drive, selectAfresh_drive, h.inputs]
  cases hinputs : Workspace.absoluteInputs a.host [] paths with
  | error f => exact .inr ⟨f, f, rfl, rfl, fun _ => rfl⟩
  | ok inputs =>
    simp only [Except.bind]
    cases hcatalogue : a.catalogue (a.nextWorkspace inputs) with
    | ok rules =>
      rw [h.catalogue_ok hinputs hcatalogue]
      exact .inl ⟨_, rfl, rfl⟩
    | error f =>
      obtain ⟨g, hg⟩ := h.catalogue_error hinputs hcatalogue
      rw [hg]
      refine .inr ⟨f, g, rfl, rfl, fun hstep => ?_⟩
      rw [h.catalogue_eq hinputs hstep, hcatalogue] at hg
      exact Except.error.inj hg

end Analyzer

end Polyscan
