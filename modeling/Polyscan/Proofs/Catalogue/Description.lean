import Polyscan.Analyzer.Catalogue
import Polyscan.Proofs.Delivery
import Polyscan.Proofs.Finding.Written
import Polyscan.Proofs.Gathering

/-!
`describeEngine` for one engine. It asks the engine, reads the answer, and checks that names are distinct;
then each rule is overridden as the configuration says, and an event is emitted for each override before the
next rule is processed. None of this depends on what other engines do meanwhile.
-/
namespace Polyscan

/-! ## Written descriptions -/

/-- A field that may be left out, with its default. -/
def WrittenOr {α : Type} (default : α) (item : Json → α → Prop) (fields : List (String × Json))
    (name : String) (x : α) : Prop :=
  (OrderedMap.find name fields = none ∧ x = default) ∨
    ∃ v, OrderedMap.find name fields = some v ∧ item v x

/-- The JSON value of a description. The severity is written as a number, in any spelling that
`Severity.parse` reads. -/
def RuleDescription.Written (v : Json) (d : RuleDescription) : Prop :=
  ∃ fields, v = .obj fields ∧
    OrderedMap.find "name" fields = some (.str d.name) ∧
    (∃ n, OrderedMap.find "severity_level" fields = some n ∧
      Schema.laxWholeNumber? n = some d.severity.number) ∧
    WrittenOr .standard (fun v t => v = .str t.name) fields "type" d.type ∧
    WrittenList (fun v tag => v = .str tag) fields "tags" d.tags ∧
    WrittenOr "" (fun v s => v = .str s) fields "description" d.description ∧
    WrittenList (fun v url => v = .str url) fields "resource_urls" d.resourceUrls

/-- The descriptions in an answer. -/
def Described.Reads : Described → List RuleDescription → Prop
  | .descriptions list, ds => list = ds
  | .data v, ds => ∃ vs, v.elements = .ok vs ∧ List.Forall₂ RuleDescription.Written vs ds

namespace Schema

theorem numbered_good_iff {α : Type} {choices : String} {ofNumber? : Int → Option α} {v : Json} {a : α} :
    numbered choices ofNumber? v = .good a ↔ ∃ n, laxWholeNumber? v = some n ∧ ofNumber? n = some a := by
  rw [← Option.bind_eq_some_iff]
  simp only [numbered, Option.bind_eq_bind]
  cases (laxWholeNumber? v).bind ofNumber? <;> simp [Checked.complain]

theorem named_good_iff {α : Type} {choices : List (String × α)} {v : Json} {a : α} :
    named choices v = .good a ↔ ∃ s, v = .str s ∧ OrderedMap.find s choices = some a := by
  unfold named
  cases v with
  | str s =>
    simp only [Json.str.injEq, exists_eq_left']
    cases OrderedMap.find s choices <;> simp [Checked.complain]
  | _ => simp [Checked.complain]

theorem severityNumber_good_iff {v : Json} {s : Severity} :
    severityNumber v = .good s ↔ laxWholeNumber? v = some (s.number : Int) := by
  simp only [severityNumber, numbered_good_iff, Severity.ofNumber?_eq_some_iff, exists_eq_right]

theorem ruleType_good_iff {v : Json} {t : RuleType} : ruleType v = .good t ↔ v = .str t.name := by
  have hnames : ∀ s, OrderedMap.find s (RuleType.all.map fun t => (t.name, t)) = some t ↔ s = t.name := by
    intro s
    constructor
    · intro h
      obtain ⟨t', -, heq⟩ := List.mem_map.mp (OrderedMap.mem_of_find h)
      cases heq
      rfl
    · rintro rfl
      cases t <;> rfl
  simp only [ruleType, named_good_iff, hnames, exists_eq_right]

theorem withDefault_written_iff {α : Type} {schema : Json → Checked α} {item : Json → α → Prop}
    (hitem : ∀ v a, schema v = .good a ↔ item v a) {fields : List (String × Json)} {name : String}
    {default a : α} :
    withDefault fields name default schema = .good a ↔ WrittenOr default item fields name a := by
  simp only [withDefault_good_iff, hitem, WrittenOr]

theorem ruleDescription_good_iff (v : Json) (d : RuleDescription) :
    ruleDescription v = .good d ↔ d.Written v := by
  have htype := fun v t => @ruleType_good_iff v t
  have htext := fun v s => @string_good_iff v s
  simp only [ruleDescription, object_good_iff, seq_good_iff, map_good_iff, required_good_iff,
    string_good_iff, severityNumber_good_iff, stringsField_good_iff, withDefault_written_iff htype,
    withDefault_written_iff htext, RuleDescription.Written]
  constructor
  · rintro ⟨fields, rfl, _, urls, ⟨_, text, ⟨_, tags, ⟨_, type, ⟨_, severity,
      ⟨name, ⟨_, hname, rfl⟩, rfl⟩, hseverity, rfl⟩, htype, rfl⟩, htags, rfl⟩, htext, rfl⟩, hurls, rfl⟩
    exact ⟨fields, rfl, hname, hseverity, htype, htags, htext, hurls⟩
  · intro h
    obtain ⟨fields, rfl, hname, hseverity, htype, htags, htext, hurls⟩ := h
    exact ⟨fields, rfl, _, _, ⟨_, _, ⟨_, _, ⟨_, _, ⟨_, _, ⟨_, ⟨_, hname, rfl⟩, rfl⟩, hseverity, rfl⟩,
      htype, rfl⟩, htags, rfl⟩, htext, rfl⟩, hurls, rfl⟩

end Schema

namespace Analyzer

/-! ## Reading descriptions -/

theorem descriptionsIn_eq_ok_iff {engine : String} {vs : List Json} {ds : List RuleDescription} :
    descriptionsIn engine vs = .ok ds ↔ List.Forall₂ RuleDescription.Written vs ds := by
  induction vs generalizing ds with
  | nil => simp [descriptionsIn, eq_comm]
  | cons v rest ih =>
    simp only [List.forall₂_cons_left_iff, ← Schema.ruleDescription_good_iff, descriptionsIn]
    cases hv : Schema.ruleDescription v with
    | bad issues => simp [Schema.Checked.orFault]
    | good d =>
      simp only [Schema.Checked.orFault, Schema.Checked.good.injEq]
      cases hrest : descriptionsIn engine rest with
      | error f =>
        have hnone : ∀ more, ¬ List.Forall₂ RuleDescription.Written rest more := by
          intro more hmore
          rw [← ih, hrest] at hmore
          cases hmore
        simp [hnone, bind, Except.bind]
      | ok more =>
        have hmore : ∀ ds, List.Forall₂ RuleDescription.Written rest ds ↔ more = ds := by
          intro ds
          rw [← ih, hrest, Except.ok.injEq]
        simp [hmore, bind, Except.bind, pure, Except.pure, eq_comm]

theorem checkDescribed_eq_ok_iff {engine : String} {x : Described} {ds : List RuleDescription} :
    checkDescribed engine x = .ok ds ↔ x.Reads ds := by
  cases x with
  | descriptions list => simp [checkDescribed, Described.Reads]
  | data v =>
    have hread := @descriptionsIn_eq_ok_iff engine
    simp only [checkDescribed, Described.Reads, ← hread]
    cases v.elements <;> simp [bind, Except.bind]

/-- No name is repeated if and only if the names are distinct and none was seen before. -/
theorem repeatedName?_eq_none_iff {seen : List String} {ds : List RuleDescription} :
    repeatedName? seen ds = none ↔ (ds.map RuleDescription.name).Nodup ∧ ∀ d ∈ ds, d.name ∉ seen := by
  induction ds generalizing seen with
  | nil => simp [repeatedName?]
  | cons d rest ih =>
    unfold repeatedName?
    by_cases hd : d.name ∈ seen
    · simp [hd]
    · rw [if_neg hd, ih, List.map_cons, List.nodup_cons]
      constructor
      · intro h
        obtain ⟨hnodup, hnew⟩ := h
        have hapart : ∀ e ∈ rest, e.name ≠ d.name ∧ e.name ∉ seen := fun e he => by
          simpa using hnew e he
        refine ⟨⟨fun hmem => ?_, hnodup⟩, List.forall_mem_cons.mpr ⟨hd, fun e he => (hapart e he).2⟩⟩
        obtain ⟨e, he, heq⟩ := List.mem_map.mp hmem
        exact (hapart e he).1 heq
      · intro h
        obtain ⟨⟨hnot, hnodup⟩, hnew⟩ := h
        refine ⟨hnodup, fun e he => ?_⟩
        rw [List.mem_cons, not_or]
        refine ⟨fun heq => hnot (heq ▸ List.mem_map_of_mem he), hnew e (List.mem_cons_of_mem _ he)⟩

theorem count_of_repeatedName? {seen : List String} {ds : List RuleDescription} {rule : String}
    (h : repeatedName? seen ds = some rule) :
    1 < (seen ++ ds.map RuleDescription.name).count rule ∧ rule ∈ ds.map RuleDescription.name := by
  induction ds generalizing seen with
  | nil => cases h
  | cons d rest ih =>
    unfold repeatedName? at h
    by_cases hd : d.name ∈ seen
    · rw [if_pos hd, Option.some.injEq] at h
      subst h
      refine ⟨?_, by simp⟩
      have hseen : 0 < seen.count d.name := List.count_pos_iff.mpr hd
      rw [List.count_append, List.map_cons, List.count_cons_self]
      omega
    · rw [if_neg hd] at h
      obtain ⟨hcount, hmem⟩ := ih h
      refine ⟨?_, List.mem_cons_of_mem _ hmem⟩
      rw [List.map_cons]
      simpa [List.count_append, List.count_cons, Nat.add_assoc, Nat.add_comm, Nat.add_left_comm]
        using hcount

/-! ## Changes -/

end Analyzer

/-- The log messages for the properties that an override changes. -/
def RuleOverride.changes (engine : String) (d : RuleDescription) (o : RuleOverride) : List Diagnostic :=
  (o.severity.toList.map fun s => .overridden "severity" d.name engine d.severity.name s.name) ++
    o.tags.toList.map fun tags =>
      .overridden "tags" d.name engine (Json.renderStrings d.tags) (Json.renderStrings tags)

namespace Config

/-- The override events for the rules of an engine. -/
def overrides (c : Config) (engine : String) (ds : List RuleDescription) : List (Event LogLevel) :=
  ds.flatMap fun d => ((c.override engine d.name).changes engine d).map fun x => .log .debug x.text

/-- A described rule as the catalogue lists it, with its overrides. -/
def ruleOf (c : Config) (engine : String) (d : RuleDescription) : Rule :=
  ⟨engine, d.overriddenBy (c.override engine d.name)⟩

end Config

namespace Analyzer

theorem emitAll_append (es fs : List (Event LogLevel)) :
    emitAll (es ++ fs) = emitAll es >>= fun _ => emitAll fs := by
  induction es with
  | nil => simp [emitAll]
  | cons e rest ih => simp [emitAll, ih]

theorem sayOverride_eq (engine : String) (d : RuleDescription) (o : RuleOverride) :
    sayOverride engine d o = emitAll ((o.changes engine d).map fun x => .log .debug x.text) := by
  obtain ⟨severity, tags⟩ := o
  cases severity <;> cases tags <;> simp [sayOverride, RuleOverride.changes, emitAll, say]

/-- `rulesOf` emits the override events and gives the overridden rules. -/
theorem rulesOf_eq (engine : String) (ds : List RuleDescription) (a : Analyzer) :
    rulesOf engine ds a =
      (emitAll (a.config.overrides engine ds) >>= fun _ => pure (ds.map (a.config.ruleOf engine))) a := by
  induction ds generalizing a with
  | nil => rfl
  | cons d rest ih =>
    have hsplit : a.config.overrides engine (d :: rest) =
        ((a.config.override engine d.name).changes engine d).map (fun x => .log .debug x.text) ++
          a.config.overrides engine rest := rfl
    show (sayOverride engine d (a.config.override engine d.name) >>= fun _ =>
      rulesOf engine rest >>= fun more => pure (a.config.ruleOf engine d :: more)) a = _
    rw [hsplit, emitAll_append, bind_assoc, sayOverride_eq, Work.effect_bind, Work.effect_bind, emitAll_eq]
    cases a.firstRefusal (stamped a.clock (((a.config.override engine d.name).changes engine d).map
        fun x => .log .debug x.text)) with
    | some f => rfl
    | none =>
      -- emitting the events of one rule leaves the configuration for the next one unchanged
      generalize hb : { a with clock := _, heard := _ } = b
      have hconfig : b.config = a.config := by rw [← hb]
      show (rulesOf engine rest >>= fun more => pure (a.config.ruleOf engine d :: more)) b =
        (emitAll (a.config.overrides engine rest) >>= fun _ =>
          pure ((d :: rest).map (a.config.ruleOf engine))) b
      rw [Work.effect_bind, ih, Work.effect_bind, Work.effect_bind, hconfig]
      rcases emitAll (a.config.overrides engine rest) b with ⟨_ | _, c⟩ <;> rfl

/-- `acceptDescribed` checks the answer and the names, and then lists the rules. -/
theorem acceptDescribed_eq (engine : String) (x : Described) (a : Analyzer) :
    acceptDescribed engine x a =
      match checkDescribed engine x with
      | .error f => (.error f, a)
      | .ok ds =>
        match repeatedName? [] ds with
        | some rule => (.error (.contract (.repeatedRule engine rule)), a)
        | none => rulesOf engine ds a := by
  unfold acceptDescribed
  cases checkDescribed engine x with
  | error f => rfl
  | ok ds =>
    simp only
    cases repeatedName? [] ds with
    | some rule => rfl
    | none => rfl

end Analyzer

/-! ## Answers -/

/-- The answer of an engine, with the rounds that it takes. -/
def Engine.answer (w : Workspace) : Engine → Delayed Described
  | .patterns rules => { outcome := .ok (.descriptions (rules.map PatternRule.toDescription)) }
  | .external e => { rounds := (e.describe w).rounds, outcome := (e.describe w).outcome.map .data }

namespace Analyzer

/-- The answer of a registered engine, with the rounds that it takes. -/
def answer (a : Analyzer) (w : Workspace) (engine : String) : Delayed Described :=
  match a.slots.get? engine with
  | some s => s.engine.answer w
  | none => { outcome := .error (.unknown engine) }

/-- The descriptions of an engine, or its failure. -/
def described (a : Analyzer) (w : Workspace) (engine : String) : Except Fault (List RuleDescription) :=
  match (a.answer w engine).outcome.bind (checkDescribed engine) with
  | .error f => .error f
  | .ok ds =>
    match repeatedName? [] ds with
    | some rule => .error (.contract (.repeatedRule engine rule))
    | none => .ok ds

/-- The rules of an engine that answers at a reading of the clock, or the failure of the engine or of a
listener. -/
def listing (a : Analyzer) (tick : Nat) (w : Workspace) (engine : String) : Except Fault (List Rule) :=
  (a.described w engine).bind fun ds =>
    (outcomeOf (a.firstRefusal (stamped tick (a.config.overrides engine ds)))).map fun _ =>
      ds.map (a.config.ruleOf engine)

/-- The events for an engine that answers at a reading of the clock. -/
def listingEvents (a : Analyzer) (tick : Nat) (w : Workspace) (engine : String) : List (Event LogLevel) :=
  match a.described w engine with
  | .error _ => []
  | .ok ds => a.published tick (a.config.overrides engine ds)

end Analyzer

/-! ## States during a listing -/

/-- A slot without the record of what its engine was asked. -/
def Slot.unasked (s : Slot) : Slot := { s with describes := [] }

namespace Analyzer

/-- From `a` to `b` engines were asked for descriptions and the given events were emitted. -/
structure Asked (es : List (Event LogLevel)) (a b : Analyzer) : Prop where
  rest : b = { a with clock := b.clock, heard := b.heard, slots := b.slots }
  clock : b.clock = a.clock + es.length
  heard : b.heard = a.heard ++ a.deliveriesOf (stamped a.clock es)
  names : b.engineNames = a.engineNames
  slots : ∀ engine, (b.slots.get? engine).map Slot.unasked = (a.slots.get? engine).map Slot.unasked

namespace Asked

variable {es fs : List (Event LogLevel)} {a b c : Analyzer}

theorem host (h : Asked es a b) : b.host = a.host := by rw [h.rest]

theorem config (h : Asked es a b) : b.config = a.config := by rw [h.rest]

theorem takes_iff (h : Asked es a b) {e : Event LogLevel} : b.Takes e ↔ a.Takes e := by
  rw [h.rest]
  rfl

theorem filesOf (h : Asked es a b) (w : Workspace) : b.filesOf w = a.filesOf w := by
  rw [h.rest]
  rfl

theorem refusalOf (h : Asked es a b) (p : Published LogLevel) : b.refusalOf p = a.refusalOf p := by
  rw [h.rest]
  rfl

theorem firstRefusal (h : Asked es a b) (ps : List (Published LogLevel)) :
    b.firstRefusal ps = a.firstRefusal ps := by
  rw [h.rest]
  rfl

theorem published (h : Asked es a b) (tick : Nat) (gs : List (Event LogLevel)) :
    b.published tick gs = a.published tick gs := by
  rw [h.rest]
  rfl

theorem deliveriesOf (h : Asked es a b) (ps : List (Published LogLevel)) :
    b.deliveriesOf ps = a.deliveriesOf ps := by
  rw [h.rest]
  rfl

theorem refl (a : Analyzer) : Asked [] a a where
  rest := rfl
  clock := rfl
  heard := by simp [stamped, Analyzer.deliveriesOf]
  names := rfl
  slots _ := rfl

theorem trans (h : Asked es a b) (h' : Asked fs b c) : Asked (es ++ fs) a c where
  rest := by
    rw [h'.rest, h.rest]
  clock := by rw [h'.clock, h.clock, List.length_append, Nat.add_assoc]
  heard := by
    rw [h'.heard, h.heard, h.deliveriesOf, h.clock, stamped_append, deliveriesOf_append, List.append_assoc]
  names := h'.names.trans h.names
  slots engine := (h'.slots engine).trans (h.slots engine)

/-- The engine of a name stays the same. -/
theorem slot_of (h : Asked es a b) {engine : String} {s : Slot} (hs : a.slots.get? engine = some s) :
    ∃ s', b.slots.get? engine = some s' ∧ s'.engine = s.engine := by
  have hslot := h.slots engine
  rw [hs, Option.map_some, Option.map_eq_some_iff] at hslot
  obtain ⟨s', hs', hsame⟩ := hslot
  have hunasked : s'.unasked.engine = s.unasked.engine := congrArg Slot.engine hsame
  exact ⟨s', hs', hunasked⟩

theorem answer (h : Asked es a b) (w : Workspace) (engine : String) :
    b.answer w engine = a.answer w engine := by
  unfold Analyzer.answer
  cases hs : a.slots.get? engine with
  | none =>
    have hslot := h.slots engine
    rw [hs, Option.map_none, Option.map_eq_none_iff] at hslot
    rw [hslot]
  | some s =>
    obtain ⟨s', hs', hengine⟩ := h.slot_of hs
    rw [hs']
    simp only [hengine]

end Asked

/-- The chronicle of listings. -/
def asking : Work.Chronicle Analyzer (Event LogLevel) where
  relates := Asked
  refl := Asked.refl
  trans := Asked.trans

theorem asked_emitAll (es : List (Event LogLevel)) (a : Analyzer) :
    ∃ b, emitAll es a = (outcomeOf (a.firstRefusal (stamped a.clock es)), b) ∧
      Asked (a.published a.clock es) a b :=
  ⟨_, emitAll_eq es a,
    { rest := rfl
      clock := rfl
      heard := rfl
      names := rfl
      slots := fun _ => rfl }⟩

/-- The rules of an engine that answers after events, or the failure. -/
def listingAfter (a : Analyzer) (w : Workspace) (engine : String) (prior : List (Event LogLevel)) :
    Except Fault (List Rule) :=
  a.listing (a.clock + prior.length) w engine

def eventsAfter (a : Analyzer) (w : Workspace) (engine : String) (prior : List (Event LogLevel)) :
    List (Event LogLevel) :=
  a.listingEvents (a.clock + prior.length) w engine

/-- `acceptDescribed` emits its events from the state in which the answer arrives. -/
theorem acceptDescribed_asked {es : List (Event LogLevel)} {a b : Analyzer} (h : Asked es a b)
    {w : Workspace} {engine : String} {x : Described} (hx : (a.answer w engine).outcome = .ok x) :
    ∃ c, acceptDescribed engine x b = (a.listingAfter w engine es, c) ∧
      Asked (a.eventsAfter w engine es) b c := by
  have hdescribed : a.described w engine =
      match checkDescribed engine x with
      | .error f => .error f
      | .ok ds =>
        match repeatedName? [] ds with
        | some rule => .error (.contract (.repeatedRule engine rule))
        | none => .ok ds := by
    unfold described
    rw [hx]
    rfl
  rw [acceptDescribed_eq]
  unfold listingAfter eventsAfter listing listingEvents
  rw [hdescribed, ← h.clock]
  cases checkDescribed engine x with
  | error f => exact ⟨b, rfl, .refl b⟩
  | ok ds =>
    cases hrepeated : repeatedName? [] ds with
    | some rule => exact ⟨b, by simp only [hrepeated]; rfl, by simpa only [hrepeated] using .refl b⟩
    | none =>
      simp only [hrepeated]
      obtain ⟨c, hemit, hc⟩ := asked_emitAll (a.config.overrides engine ds) b
      rw [rulesOf_eq, Work.effect_bind, h.config, hemit, h.firstRefusal]
      rw [h.published] at hc
      refine ⟨c, ?_, hc⟩
      show _ = ((outcomeOf (a.firstRefusal (stamped b.clock (a.config.overrides engine ds)))).map
        (fun _ => ds.map (a.config.ruleOf engine)), c)
      cases a.firstRefusal (stamped b.clock (a.config.overrides engine ds)) <;> rfl

theorem asked_adjustSlot {engine : String} (f : Slot → Slot) (hf : ∀ s, (f s).unasked = s.unasked)
    (a : Analyzer) : Asked [] a (adjustSlot engine f a) where
  rest := rfl
  clock := rfl
  heard := (Asked.refl a).heard
  names := OrderedMap.keys_adjust a.slots engine f
  slots e := by
    show ((a.slots.adjust engine f).get? e).map Slot.unasked = _
    rw [OrderedMap.get?_adjust]
    by_cases he : engine = e
    · subst he
      rw [if_pos rfl, Option.map_map]
      congr 1
      funext s
      exact hf s
    · rw [if_neg he]

/-- An engine that fails has no events. -/
theorem listing_of_error {a : Analyzer} {w : Workspace} {engine : String} {f : Fault}
    (h : (a.answer w engine).outcome = .error f) (tick : Nat) :
    a.listing tick w engine = .error f ∧ a.listingEvents tick w engine = [] := by
  have hdescribed : a.described w engine = .error f := by
    unfold described
    rw [h]
    rfl
  unfold listing listingEvents
  rw [hdescribed]
  exact ⟨rfl, rfl⟩

/-! ## One engine among others -/

section

variable {a b : Analyzer} {es : List (Event LogLevel)} {engine : String}

/-- The slot is the one from before, except for the record of what its engine was asked. -/
theorem Asked.slot_eq (h : Asked es a b) {s : Slot} (hs : a.slots.get? engine = some s) :
    ∃ s', slot engine b = (.ok s', b) ∧ s'.engine = s.engine := by
  obtain ⟨s', hs', hengine⟩ := h.slot_of hs
  exact ⟨s', by rw [slot, hs'], hengine⟩

theorem Asked.slot_missing (h : Asked es a b) (hs : a.slots.get? engine = none) :
    slot engine b = (.error (.unknown engine), b) := by
  have hslot := h.slots engine
  rw [hs, Option.map_none, Option.map_eq_none_iff] at hslot
  rw [slot, hslot]

theorem describeEngine_turn (w : Workspace) (engine : String) (s : Analyzer) :
    (describeEngine w engine).turn s = (describeEngine w engine).resume s := rfl

variable {w : Workspace}

theorem describeEngine_missing (hs : a.slots.get? engine = none) :
    Work.EndsAfter asking a (fun _ => .error (.unknown engine)) (fun _ => []) 0
      (describeEngine w engine) := by
  refine .now fun xs b hb => ⟨b, ?_, .refl b⟩
  rw [describeEngine_turn, describeEngine, askForDescriptions, Work.bind_assoc, Work.resume_now_bind,
    hb.slot_missing hs]

/-- The bundled engine answers at once. -/
theorem describeEngine_patterns {s : Slot} {rules : List PatternRule} (hs : a.slots.get? engine = some s)
    (hengine : s.engine = .patterns rules)
    (houtcome : (a.answer w engine).outcome = .ok (.descriptions (rules.map PatternRule.toDescription))) :
    Work.EndsAfter asking a (a.listingAfter w engine) (a.eventsAfter w engine) 0
      (describeEngine w engine) := by
  refine .now fun xs b hb => ?_
  obtain ⟨s', hslot, hs'⟩ := hb.slot_eq hs
  obtain ⟨c, haccept, hc⟩ := acceptDescribed_asked hb houtcome
  refine ⟨c, ?_, hc⟩
  rw [describeEngine_turn, describeEngine, askForDescriptions, Work.bind_assoc, Work.resume_now_bind, hslot]
  simp only [hs', hengine]
  show (Work.done (acceptDescribed engine _ b).1, (acceptDescribed engine _ b).2) = _
  rw [haccept]

/-- The answer of an external engine is accepted in the state in which it arrives. -/
theorem answered_asked {outcome : Except Fault Json}
    (houtcome : (a.answer w engine).outcome = outcome.map .data) (hab : Asked es a b) :
    ∃ c, ((Work.done outcome).bind fun v => Work.now (acceptDescribed engine (.data v))).resume b =
        (.done (a.listingAfter w engine es), c) ∧ Asked (a.eventsAfter w engine es) b c := by
  cases outcome with
  | error f =>
    obtain ⟨hlisting, hevents⟩ := listing_of_error houtcome (a.clock + es.length)
    rw [listingAfter, eventsAfter, hlisting, hevents]
    exact ⟨b, rfl, .refl b⟩
  | ok v =>
    obtain ⟨c, haccept, hc⟩ := acceptDescribed_asked hab houtcome
    refine ⟨c, ?_, hc⟩
    show (Work.done (acceptDescribed engine _ b).1, (acceptDescribed engine _ b).2) = _
    rw [haccept]

/-- An external engine is asked at once and may take some rounds to answer. -/
theorem describeEngine_external {s : Slot} {e : ExternalEngine} (hs : a.slots.get? engine = some s)
    (hengine : s.engine = .external e)
    (houtcome : (a.answer w engine).outcome = (e.describe w).outcome.map .data) :
    Work.EndsAfter asking a (a.listingAfter w engine) (a.eventsAfter w engine) (e.describe w).rounds
      (describeEngine w engine) := by
  -- asking leaves a record in the slot, which `Asked` does not count
  refine .of_pause (fun xs b hb => ?_) fun xs b hb => answered_asked houtcome hb
  obtain ⟨s', hslot, hs'⟩ := hb.slot_eq hs
  have hasked : Asked [] b
      (adjustSlot engine (fun slot => { slot with describes := slot.describes ++ [w.id] }) b) := by
    refine asked_adjustSlot _ (fun slot => ?_) b
    rfl
  refine ⟨_, ?_, hasked⟩
  rw [describeEngine_turn, describeEngine, askForDescriptions, Work.bind_assoc, Work.resume_now_bind, hslot]
  simp only [hs', hengine, Work.bind_assoc, Work.resume_now_bind]
  show (((e.describe w).await.bind _).resume _) = _
  rw [Delayed.await, Work.bind_assoc]
  rfl

end

/-- `describeEngine` ends after the rounds of its engine, whatever else is asked meanwhile. -/
theorem describeEngine_endsAfter (a : Analyzer) (w : Workspace) (engine : String) :
    Work.EndsAfter asking a (a.listingAfter w engine) (a.eventsAfter w engine) (a.answer w engine).rounds
      (describeEngine w engine) := by
  cases hs : a.slots.get? engine with
  | none =>
    have hanswer : a.answer w engine = { outcome := .error (.unknown engine) } := by
      simp only [answer, hs]
    have hmissing := fun tick => listing_of_error (congrArg Delayed.outcome hanswer) tick
    have hlisting : a.listingAfter w engine = fun _ => .error (.unknown engine) :=
      funext fun prior => (hmissing _).1
    have hevents : a.eventsAfter w engine = fun _ => [] := funext fun prior => (hmissing _).2
    rw [hlisting, hevents, hanswer]
    exact describeEngine_missing hs
  | some s =>
    have hanswer : a.answer w engine = s.engine.answer w := by
      simp only [answer, hs]
    cases hengine : s.engine with
    | patterns rules =>
      rw [hengine] at hanswer
      have hrounds : (a.answer w engine).rounds = 0 := congrArg Delayed.rounds hanswer
      rw [hrounds]
      exact describeEngine_patterns hs hengine (congrArg Delayed.outcome hanswer)
    | external e =>
      rw [hengine] at hanswer
      have hrounds : (a.answer w engine).rounds = (e.describe w).rounds := congrArg Delayed.rounds hanswer
      rw [hrounds]
      exact describeEngine_external hs hengine (congrArg Delayed.outcome hanswer)

end Analyzer

end Polyscan
