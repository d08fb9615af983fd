import Polyscan.Proofs.Listening
import Polyscan.Proofs.Run.Options

/-!
The engines that `run` starts, under any listeners. They are started in the order of the selection, each with
the names of its rules and after its opening events. A run that returns results has started all of them. One
that fails has ended at a fault of a listener, or at the engine whose report was refused.
-/
namespace Polyscan

open Work

/-- The opening events of engines. -/
def Starts.announced (starts : Starts) : List (Event LogLevel) :=
  starts.flatMap fun s =>
    [.progress s.1 (.given (.ofNat 0)), .log .debug (Diagnostic.engineRules s.1 s.2).text]

theorem Slot.unasked_asked (calls : List (List String × RunOptions)) (s : Slot) :
    (s.asked calls).unasked = s.unasked.asked calls := by
  obtain ⟨engine, config, logs, progress, describes, runs⟩ := s
  cases engine <;> rfl

namespace Analyzer

variable {o : RunOptions} {selection : Selection} {ss ts : Starts} {a b c : Analyzer}

/-! ## Started engines -/

/-- A passage emits the events of its cues and keeps the subscriptions. -/
theorem Passage.emits {cues : List Cue} (h : Passage o cues a b) :
    Emits ((Cue.emitted cues).map Published.event) a b where
  rest := by rw [h.rest]
  clock := by rw [h.clock, List.length_map]
  heard := by rw [h.heard, ← h.stamps]

/-- From `a` to `b` the given engines were started one after another, each after its opening events. Engines
may have been asked for descriptions as well. -/
structure Launched (o : RunOptions) (ss : Starts) (a b : Analyzer) : Prop where
  emitted : ∃ es, Emits es a b ∧ ss.announced.Sublist es
  slots : ∀ engine, (b.slots.get? engine).map Slot.unasked =
    ((a.slots.get? engine).map Slot.unasked).map (Slot.asked (ss.callsOf o engine))

namespace Launched

theorem of_slots_eq (hslots : b.slots = a.slots) (hemitted : emitting.keeps a b) : Launched o [] a b where
  emitted := by
    obtain ⟨es, hes⟩ := hemitted
    exact ⟨es, hes, List.nil_sublist es⟩
  slots engine := by
    rw [hslots]
    cases a.slots.get? engine with
    | none => rfl
    | some s => simp [Starts.callsOf, Slot.asked_nil]

theorem refl (o : RunOptions) (a : Analyzer) : Launched o [] a a := .of_slots_eq rfl (emitting.refl a)

theorem trans (h : Launched o ss a b) (h' : Launched o ts b c) : Launched o (ss ++ ts) a c where
  emitted := by
    obtain ⟨es, hes, hss⟩ := h.emitted
    obtain ⟨fs, hfs, hts⟩ := h'.emitted
    refine ⟨es ++ fs, hes.trans hfs, ?_⟩
    rw [Starts.announced, List.flatMap_append]
    exact hss.append hts
  slots engine := by
    rw [h'.slots, h.slots, Option.map_map, Starts.callsOf_append]
    congr 1
    funext s
    exact (Slot.asked_append _ _ s).symm

theorem host (h : Launched o ss a b) : b.host = a.host := by
  obtain ⟨es, hes, -⟩ := h.emitted
  exact hes.host

theorem refusalOf (h : Launched o ss a b) (p : Published LogLevel) : b.refusalOf p = a.refusalOf p := by
  obtain ⟨es, hes, -⟩ := h.emitted
  exact hes.refusalOf p

theorem clock_le (h : Launched o ss a b) : a.clock ≤ b.clock := by
  obtain ⟨es, hes, -⟩ := h.emitted
  rw [hes.clock]
  exact Nat.le_add_right _ _

theorem registered (h : Launched o ss a b) {engine : String} (hengine : engine ∈ a.engineNames) :
    engine ∈ b.engineNames := by
  obtain ⟨s, hs⟩ := mem_engineNames_iff.mp hengine
  have hslot := h.slots engine
  rw [hs, Option.map_some, Option.map_some, Option.map_eq_some_iff] at hslot
  obtain ⟨s', hs', -⟩ := hslot
  exact mem_engineNames_iff.mpr ⟨s', hs'⟩

end Launched

/-- The law that no engine is started. -/
def idling (o : RunOptions) : Law Analyzer where
  keeps := Launched o []
  refl := Launched.refl o
  trans := Launched.trans

theorem allowsWork_idling (o : RunOptions) : AllowsWork (idling o) o where
  emit e a := .of_slots_eq (by rw [emit_eq]) (emitting_emit e a)
  files _ _ := .of_slots_eq rfl ⟨[], .still rfl⟩

theorem allowsListing_idling (o : RunOptions) : AllowsListing (idling o) where
  emit := (allowsWork_idling o).emit
  asked engine id a := by
    have hasked : Asked [] a
        (adjustSlot engine (fun s => { s with describes := s.describes ++ [id] }) a) := by
      refine asked_adjustSlot _ (fun s => ?_) a
      rfl
    refine ⟨⟨[], hasked.emits, List.nil_sublist []⟩, fun k => ?_⟩
    rw [hasked.slots]
    exact (Launched.refl o a).slots k

/-! ## One engine -/

/-- An engine is started with the names of its rules after its opening events, and then runs. -/
theorem launched_of_run {engine : String} {names : List String} {s : Slot}
    (hemitted : Emits (Starts.announced [(engine, names)]) a b) (hslots : b.slots = a.slots)
    (hs : b.slots.get? engine = some s) :
    Launched o [(engine, names)] a ((runEngine engine s names o).drive b).2 := by
  obtain ⟨c, hdrive, hpassage⟩ := runEngine_enacts (o := o) names hs
  rw [← List.singleton_append, played_append_of_none rfl, played_emits] at hpassage
  have hlaunches : ∀ ps : List (Published LogLevel),
      Cue.launches ([.starts engine names] ++ ps.map .emits) = [(engine, names)] := by
    intro ps
    rw [Cue.launches_append, Cue.launches_emits]
    rfl
  rw [hdrive]
  refine ⟨⟨_, hemitted.trans hpassage.emits, List.sublist_append_left _ _⟩, fun k => ?_⟩
  rw [hpassage.slots k, hslots, hlaunches]
  cases a.slots.get? k with
  | none => rfl
  | some s => simp [Slot.unasked_asked]

/-! ## Cut short -/

/-- Why no more engines were started: a listener raised on an event of the run, or the report of the last
engine was refused. -/
inductive CutShort (a : Analyzer) (selection : Selection) (o : RunOptions) (ss : Starts) (f : Fault) : Prop
  | listener {p : Published LogLevel} (htick : a.clock ≤ p.tick) (hrefusal : a.refusalOf p = some f) :
      CutShort a selection o ss f
  | refused {before : Starts} {engine : String} {s : Slot} {b : Analyzer} {r : Reported}
      (hlast : ss = before ++ [(engine, namesFor selection engine)]) (hbefore : Launched o before a b)
      (hslot : b.slots.get? engine = some s)
      (hreported : ((runEngine engine s (namesFor selection engine) o).drive b).1 = .ok r)
      (hbad : ¬ r.Acceptable a.host selection engine)
      (hemits : f.ContractUnless (r.Untold a.host selection engine)) : CutShort a selection o ss f

theorem CutShort.after {f : Fault} (h : b.CutShort selection o ts f) (hab : Launched o ss a b) :
    a.CutShort selection o (ss ++ ts) f := by
  cases h with
  | listener htick hrefusal =>
    rw [hab.refusalOf] at hrefusal
    exact .listener (hab.clock_le.trans htick) hrefusal
  | @refused before engine s c r hlast hbefore hslot hreported hbad hemits =>
    rw [hab.host] at hbad hemits
    exact .refused (by rw [hlast, List.append_assoc]) (hab.trans hbefore) hslot hreported hbad hemits

/-- Work starts the given engines if it comes to a result, and else the first of them, until it was cut short. -/
def Launches {α : Type} (selection : Selection) (o : RunOptions) (w : Work Analyzer α) (a : Analyzer)
    (ss : Starts) : Prop :=
  ∃ played, played <+: ss ∧ Launched o played a (w.drive a).2 ∧
    (∀ x, (w.drive a).1 = .ok x → played = ss) ∧
    ∀ f, (w.drive a).1 = .error f → a.CutShort selection o played f

namespace Launches

variable {α β : Type} {w : Work Analyzer α} {f : α → Work Analyzer β}

theorem bind (hw : Launches selection o w a ss)
    (hf : ∀ x b, w.drive a = (.ok x, b) → Launched o ss a b → Launches selection o (f x) b ts) :
    Launches selection o (w.bind f) a (ss ++ ts) := by
  obtain ⟨played, hprefix, hlaunched, hok, herror⟩ := hw
  unfold Launches
  rw [drive_bind]
  rcases hdrive : w.drive a with ⟨g | x, b⟩
  · rw [hdrive] at hlaunched herror
    refine ⟨played, hprefix.trans (List.prefix_append ss ts), hlaunched, nofun, fun g' hg => ?_⟩
    cases hg
    exact herror g rfl
  · rw [hdrive] at hlaunched hok
    obtain rfl := hok x rfl
    obtain ⟨more, hmore, hlaunched', hok', herror'⟩ := hf x b hdrive hlaunched
    exact ⟨played ++ more, (List.prefix_append_right_inj played).mpr hmore, hlaunched.trans hlaunched',
      fun y hy => by rw [hok' y hy], fun g hg => (herror' g hg).after hlaunched⟩

theorem emit (e : Event LogLevel) : Launches selection o (Work.now (Analyzer.emit e)) a [] := by
  refine ⟨[], List.prefix_rfl, (allowsWork_idling o).emit e a, fun _ _ => rfl, fun g hg => ?_⟩
  rw [drive_now, emit_eq] at hg
  cases hrefusal : a.refusalOf ⟨a.clock, e⟩ with
  | none =>
    rw [hrefusal] at hg
    cases hg
  | some g' =>
    rw [hrefusal] at hg
    cases hg
    exact .listener le_rfl hrefusal

theorem pure (x : α) : Launches selection o (Pure.pure x : Work Analyzer α) a [] :=
  ⟨[], List.prefix_rfl, .refl o a, fun _ _ => rfl, nofun⟩

theorem now_bind {e : Effect Analyzer α} {g : α → Effect Analyzer β}
    (h : Launches selection o ((Work.now e).bind fun x => Work.now (g x)) a ss) :
    Launches selection o (Work.now (e >>= g)) a ss := by
  unfold Launches at h ⊢
  rwa [drive_now_bind]

end Launches

/-! ## The start of an engine -/

/-- The opening events are emitted before an engine starts, unless a listener raises. -/
theorem announce_cases {engine : String} (hengine : engine ∈ a.engineNames) (names : List String) :
    ∃ outcome b, (announce engine names).drive a = (outcome, b) ∧ b.slots = a.slots ∧
      ((∃ s, outcome = .ok s ∧ b.slots.get? engine = some s ∧
          Emits (Starts.announced [(engine, names)]) a b) ∨
        ∃ f p, outcome = .error f ∧ a.clock ≤ p.tick ∧ a.refusalOf p = some f ∧ emitting.keeps a b) := by
  have hdrive : (announce engine names).drive a =
      (emitAll (Starts.announced [(engine, names)]) >>= fun _ => slot engine) a := by
    rw [announce, ← drive_now_bind]
    simp [Starts.announced, emitAll, say]
  obtain ⟨b, hemit, hasked⟩ := asked_emitAll (Starts.announced [(engine, names)]) a
  have hslots : b.slots = a.slots := by
    rw [emitAll_eq] at hemit
    rw [← (Prod.mk.inj hemit).2]
  rw [hdrive, effect_bind, hemit]
  cases hrefusal : a.firstRefusal (stamped a.clock (Starts.announced [(engine, names)])) with
  | some f =>
    obtain ⟨p, hp, hf⟩ := List.exists_of_findSome?_eq_some hrefusal
    exact ⟨_, b, rfl, hslots, .inr ⟨f, p, rfl, le_tick_of_mem_stamped hp, hf, _, hasked.emits⟩⟩
  | none =>
    obtain ⟨s, hs⟩ := mem_engineNames_iff.mp hengine
    rw [published_of_firstRefusal hrefusal] at hasked
    rw [← hslots] at hs
    refine ⟨.ok s, b, ?_, hslots, .inl ⟨s, rfl, hs, hasked.emits⟩⟩
    show slot engine b = _
    rw [slot, hs]

/-- An announced engine is run, and then its report is accepted or refused. -/
theorem settle_launches {engine : String} {s : Slot}
    (hemitted : Emits (Starts.announced [(engine, namesFor selection engine)]) a b) (hslots : b.slots = a.slots)
    (hs : b.slots.get? engine = some s) :
    Launched o [(engine, namesFor selection engine)] a
        (((runEngine engine s (namesFor selection engine) o).attempt.bind (settle selection engine)).drive b).2 ∧
      ∀ f, (((runEngine engine s (namesFor selection engine) o).attempt.bind
          (settle selection engine)).drive b).1 = .error f →
        a.CutShort selection o [(engine, namesFor selection engine)] f := by
  have hlaunched : Launched o [(engine, namesFor selection engine)] a _ := launched_of_run hemitted hslots hs
  have hbefore : Launched o [] a b := .of_slots_eq hslots ⟨_, hemitted⟩
  rw [drive_bind, drive_attempt]
  rcases hrun : (runEngine engine s (namesFor selection engine) o).drive b with ⟨f | r, c⟩
  · rw [hrun] at hlaunched
    have hlament : Launches selection o (Work.now do
        say .error (.engineRunFailed engine f.text)
        Pure.pure (EngineResults.failure engine f)) c [] :=
      .now_bind ((Launches.emit _).bind fun _ _ _ _ => .pure _)
    obtain ⟨played, hprefix, hlaunched', -, herror⟩ := hlament
    obtain rfl := List.prefix_nil.mp hprefix
    exact ⟨hlaunched.trans hlaunched', fun g hg => (herror g hg).after hlaunched⟩
  · rw [hrun] at hlaunched
    have hsettle : (settle selection engine (.ok r)).drive c =
        (acceptReported c.host selection engine r, c) := by
      show (liftM (acceptReported c.host selection engine r) : Effect Analyzer EngineResults) c = _
      cases acceptReported c.host selection engine r <;> rfl
    simp only [hsettle]
    refine ⟨hlaunched, fun f hf => ?_⟩
    rw [hlaunched.host] at hf
    obtain ⟨hbad, hemits⟩ := acceptReported_error hf
    exact .refused rfl hbefore hs (congrArg Prod.fst hrun) hbad hemits

/-- `conductEngine` starts the engine after its opening events. -/
theorem conductEngine_launches {engine : String} (hengine : engine ∈ a.engineNames) :
    Launches selection o (conductEngine selection o engine) a [(engine, namesFor selection engine)] := by
  obtain ⟨outcome, b, hdrive, hslots, hcases⟩ := announce_cases hengine (namesFor selection engine)
  unfold Launches
  rw [conductEngine, drive_bind, hdrive]
  rcases hcases with ⟨s, rfl, hs, hemitted⟩ | ⟨f, p, rfl, htick, hrefusal, hemitted⟩
  · obtain ⟨hlaunched, herror⟩ := settle_launches (o := o) hemitted hslots hs
    exact ⟨_, List.prefix_rfl, hlaunched, fun _ _ => rfl, herror⟩
  · refine ⟨[], List.nil_prefix, .of_slots_eq hslots hemitted, fun r hr => ?_, fun g hg => ?_⟩
    · cases hr
    · cases hg
      exact .listener htick hrefusal

/-! ## All engines -/

/-- `runAll` starts its engines in order under any listeners, and all of them if it comes to results. -/
theorem runAll_launches (engines : List String) (results : RunResults)
    (hregistered : ∀ engine ∈ engines, engine ∈ a.engineNames) :
    Launches selection o (runAll selection o engines results) a (startsOf selection engines) := by
  induction engines generalizing a results with
  | nil => exact .pure results
  | cons engine rest ih =>
    obtain ⟨hengine, hrest⟩ := List.forall_mem_cons.mp hregistered
    rw [runAll_cons]
    refine (conductEngine_launches hengine).bind fun r b _ hb => ?_
    have hclosing : Launches selection o (Work.now do
        emit (.progress engine (.given (.ofNat 100)))
        emit (.results r)) b [] := .now_bind ((Launches.emit _).bind fun _ _ _ _ => .emit _)
    exact hclosing.bind fun _ c _ hc =>
      ih (results.add r) fun engine hmem => hc.registered (hb.registered (hrest engine hmem))

/-- `runWith` starts the engines of the selection in order, and all of them if it comes to results. -/
theorem runWith_launches (hregistered : ∀ engine ∈ selection.engineNames, engine ∈ a.engineNames) :
    Launches selection o (runWith selection o) a (startsOf selection selection.engineNames) := by
  have hemitted : Launches selection o (Work.now (say .debug (.runOptions o.toJson))) a [] := .emit _
  exact hemitted.bind fun _ b _ hb =>
    runAll_launches _ _ fun engine hmem => hb.registered (hregistered engine hmem)

end Analyzer

end Polyscan
