import Polyscan.Proofs.Catalogue.Listing
import Polyscan.Proofs.Registration.Wiring
import Polyscan.Proofs.Run.Soundness
import Polyscan.Proofs.Scan
import Polyscan.Proofs.StartPoint
import Polyscan.Proofs.Workspace

/-!
The bundled engine keeps the engine contract, for all custom rules, workspaces and start points: its rules have
distinct names, it never fails, and its reports pass all checks. If a selection or a run fails, the cause is
another engine.
-/
namespace Polyscan

variable {h : Host} {rules : List PatternRule}

/-! ## What the engine does -/

/-- A scan of files with proper paths reports sound findings only. -/
theorem Performance.ofScan_report (hrules : ∀ r ∈ rules, r.Reportable) (total done : Nat)
    {files : List String} (hfiles : ∀ file ∈ files, Path.Proper file) :
    ∃ fs, (Performance.ofScan h rules total done files).report = .ok fs ∧ ∀ f ∈ fs, f.Of h rules := by
  induction files generalizing done with
  | nil => exact ⟨[], rfl, by simp⟩
  | cons file rest ih =>
    obtain ⟨found, hfound, hof⟩ :=
      PatternRule.scanFile_isOk (h := h) (hfiles file List.mem_cons_self) hrules
    obtain ⟨more, hmore, hmoreOf⟩ := ih (done + 1) fun x hx => hfiles x (List.mem_cons_of_mem file hx)
    refine ⟨found ++ more, ?_, ?_⟩
    · rw [Performance.ofScan, hfound]
      show (Performance.ofScan h rules total (done + 1) rest).report.map (found ++ ·) = _
      rw [hmore]
      rfl
    · intro f hf
      rcases List.mem_append.mp hf with hf | hf
      · exact hof f hf
      · exact hmoreOf f hf

namespace Analyzer

/-- Existing rules are found by their names. -/
theorem rulesNamed_isOk {names : List String} (hnames : ∀ n ∈ names, n ∈ rules.map PatternRule.name) :
    ∃ chosen, rulesNamed rules names = .ok chosen ∧ ∀ r ∈ chosen, r ∈ rules ∧ r.name ∈ names := by
  have hmissing : names.filter (fun n => (PatternRule.find? rules n).isNone) = [] := by
    rw [List.filter_eq_nil_iff]
    intro n hn
    rw [Option.isNone_iff_eq_none, ← ne_eq, ← Option.isSome_iff_ne_none]
    exact PatternRule.find?_isSome (hnames n hn)
  refine ⟨names.filterMap (PatternRule.find? rules), ?_, ?_⟩
  · unfold rulesNamed
    rw [hmissing]
  · intro r hr
    obtain ⟨n, hn, hfound⟩ := List.mem_filterMap.mp hr
    obtain ⟨hmem, hname⟩ := PatternRule.find?_eq_some hfound
    exact ⟨hmem, hname ▸ hn⟩

theorem mem_of_mem_filesInScope {o : RunOptions} {files : List String} {file : String}
    (hfile : file ∈ filesInScope o files) : file ∈ files := by
  unfold filesInScope at hfile
  split at hfile
  · exact hfile
  · exact hfile
  · exact List.mem_of_mem_filter hfile

end Analyzer

/-- With names of existing rules and files with proper paths, the report of the engine is acceptable. -/
theorem Engine.perform_acceptable {selection : Selection} {engine : String} {files : List String}
    (o : RunOptions) (hrules : ∀ r ∈ rules, r.Reportable) (hfiles : ∀ file ∈ files, Path.Proper file)
    (hfiled : selection.Filed)
    (hnames : ∀ n ∈ Analyzer.namesFor selection engine, n ∈ rules.map PatternRule.name) :
    ∃ r, ((Engine.patterns rules).perform h files (Analyzer.namesFor selection engine) o).report = .ok r ∧
      r.Acceptable h selection engine := by
  obtain ⟨chosen, hchosen, hmem⟩ := Analyzer.rulesNamed_isOk hnames
  have hscope : ∀ file ∈ Analyzer.filesInScope o files, Path.Proper file :=
    fun file hfile => hfiles file (Analyzer.mem_of_mem_filesInScope hfile)
  obtain ⟨fs, hfs, hof⟩ := Performance.ofScan_report (h := h) (fun r hr => hrules r (hmem r hr).1)
    (Analyzer.filesInScope o files).length 0 hscope
  refine ⟨.findings fs, ?_, fs, rfl, ?_⟩
  · simp only [Engine.perform, hchosen]
    show (Performance.ofScan h chosen _ 0 _).report.map Reported.findings = _
    rw [hfs]
    rfl
  · intro f hf
    refine (hof f hf).sound fun r hr => ?_
    obtain ⟨rule, hrule, hname⟩ := List.mem_map.mp (hmem r hr).2
    exact ⟨rule, hname ▸ (hfiled.find?_of_mem_rulesFor hrule).2⟩

namespace Analyzer

/-! ## Runs -/

/-- `createWorkspace` made the workspace, and its files are listed, or were, on a machine where all entries of
folders have possible names. -/
structure Genuine (a : Analyzer) (w : Workspace) : Prop where
  made : ∃ (b : Analyzer) (paths : List String), (createWorkspace paths b).1 = .ok w
  listed : ∃ h : Host, h.files.WellNamed ∧ a.filesOf w = Workspace.expand h w.inputs

theorem Genuine.proper {a : Analyzer} {w : Workspace} (hw : a.Genuine w) :
    ∀ file ∈ a.filesOf w, Path.Proper file := by
  obtain ⟨b, paths, hmade⟩ := hw.made
  obtain ⟨machine, hnamed, hfiles⟩ := hw.listed
  rw [hfiles]
  exact Workspace.proper_of_mem_expand hnamed (proper_of_createWorkspace hmade)

/-- Without a stored expansion the files are those on the machine now. -/
theorem filesOf_of_fresh {a : Analyzer} {w : Workspace} (h : OrderedMap.find w.key a.expansions = none) :
    a.filesOf w = Workspace.expand a.host w.inputs := by
  simp only [filesOf, expansion, h]
  rfl

theorem Genuine.of_fresh {a b : Analyzer} {w : Workspace} {paths : List String}
    (hmade : (createWorkspace paths b).1 = .ok w) (hnamed : a.host.files.WellNamed)
    (hfresh : OrderedMap.find w.key a.expansions = none) : a.Genuine w where
  made := ⟨b, paths, hmade⟩
  listed := ⟨a.host, hnamed, filesOf_of_fresh hfresh⟩

/-- The engine is not at fault: its report is acceptable and kept as sound violations, it is not among the
failed engines, and if the run is refused it is because of the report of another engine. -/
structure Blameless (a : Analyzer) (selection : Selection) (o : RunOptions) (engine : String)
    (outcome : Except Fault RunResults) : Prop where
  reports : engine ∈ selection.engineNames → ∃ r, (a.performance selection o engine).report = .ok r ∧
    r.Acceptable a.host selection engine
  kept : ∀ results, outcome = .ok results → engine ∈ selection.engineNames →
    ∃ r fs vs, (a.performance selection o engine).report = .ok r ∧ r.Reads fs ∧
      results.byEngine.get? engine = some ⟨engine, .ok vs⟩ ∧
      List.Forall₂ (Violation.Tied selection engine) fs vs ∧ ∀ v ∈ vs, v.Sound a.host selection engine
  unfailed : ∀ results, outcome = .ok results → engine ∉ results.failedEngines
  refusal : ∀ f, outcome = .error f → ∃ other ∈ selection.engineNames, other ≠ engine ∧
    ∃ r, (a.performance selection o other).report = .ok r ∧ ¬ r.Acceptable a.host selection other
  alone : (∀ x ∈ selection.engineNames, x = engine) →
    ∃ results, outcome = .ok results ∧ results.failedEngines = []

section

variable {a : Analyzer} {selection : Selection} {o : RunOptions} {engine : String}

section

variable {outcome : Except Fault RunResults}

theorem ComesTo.unfailed (h : a.ComesTo selection o outcome) (hreports : engine ∈ selection.engineNames →
      ∃ r, (a.performance selection o engine).report = .ok r ∧ r.Acceptable a.host selection engine) :
    ∀ results, outcome = .ok results → engine ∉ results.failedEngines := by
  intro results hresults hfailed
  obtain ⟨hmem, f, hf⟩ := ((h.results results hresults).failed engine).mp hfailed
  obtain ⟨r, hr, -⟩ := hreports hmem
  rw [hr] at hf
  cases hf

theorem ComesTo.refused_elsewhere (h : a.ComesTo selection o outcome)
    (hreports : engine ∈ selection.engineNames →
      ∃ r, (a.performance selection o engine).report = .ok r ∧ r.Acceptable a.host selection engine) :
    ∀ f, outcome = .error f → ∃ other ∈ selection.engineNames, other ≠ engine ∧
      ∃ r, (a.performance selection o other).report = .ok r ∧
        ¬ r.Acceptable a.host selection other := by
  intro f hf
  obtain ⟨other, before, after, r, -, hsplit, -, hr, hnot, -⟩ := h.refusal f hf
  have hmem : other ∈ selection.engineNames := by simp [hsplit]
  refine ⟨other, hmem, ?_, r, hr, hnot⟩
  rintro rfl
  obtain ⟨r', hr', hacceptable⟩ := hreports hmem
  rw [hr] at hr'
  cases hr'
  exact hnot hacceptable

/-- An acceptable report is kept. -/
theorem ComesTo.kept (h : a.ComesTo selection o outcome) (hfiled : selection.Filed)
    (hreports : engine ∈ selection.engineNames →
      ∃ r, (a.performance selection o engine).report = .ok r ∧ r.Acceptable a.host selection engine) :
    ∀ results, outcome = .ok results → engine ∈ selection.engineNames →
      ∃ r fs vs, (a.performance selection o engine).report = .ok r ∧ r.Reads fs ∧
        results.byEngine.get? engine = some ⟨engine, .ok vs⟩ ∧
        List.Forall₂ (Violation.Tied selection engine) fs vs ∧
        ∀ v ∈ vs, v.Sound a.host selection engine := by
  intro results hresults hmem
  have hare := h.results results hresults
  obtain ⟨r, hr, -⟩ := hreports hmem
  obtain ⟨e, -, hkeeps⟩ := exists_partner hare.listed hmem
  have hentry : results.byEngine.get? engine = some e := (hare.entry engine e).mpr ⟨hmem, hkeeps⟩
  have hsound := hkeeps.violations_sound hfiled
  rcases hkeeps with ⟨f, hf, -⟩ | ⟨r', fs, hr', hreads, -, hengine, vs, hvs, htied⟩
  · rw [hr] at hf
    cases hf
  · obtain ⟨name, kept⟩ := e
    cases hengine
    cases hvs
    exact ⟨r', fs, vs, hr', hreads, hentry, htied, hsound⟩

/-- A run to which the engine contributes an acceptable report, or nothing. -/
theorem ComesTo.blameless (h : a.ComesTo selection o outcome) (hfiled : selection.Filed)
    (hreports : engine ∈ selection.engineNames →
      ∃ r, (a.performance selection o engine).report = .ok r ∧ r.Acceptable a.host selection engine) :
    a.Blameless selection o engine outcome where
  reports := hreports
  kept := h.kept hfiled hreports
  unfailed := h.unfailed hreports
  refusal := h.refused_elsewhere hreports
  alone := by
    intro halone
    cases houtcome : outcome with
    | error f =>
      obtain ⟨other, hother, hne, -⟩ := h.refused_elsewhere hreports f houtcome
      exact absurd (halone other hother) hne
    | ok results =>
      refine ⟨results, rfl, List.eq_nil_iff_forall_not_mem.mpr ?_⟩
      intro x hx
      have hmem := (((h.results results houtcome).failed x).mp hx).1
      exact h.unfailed hreports results houtcome (halone x hmem ▸ hx)

end

/-- A selection of rules of registered engines, and of given rules only for one of them. -/
structure Selects (a : Analyzer) (engine : String) (rules : List PatternRule) (selection : Selection) :
    Prop where
  filed : selection.Filed
  registered : ∀ x ∈ selection.engineNames, x ∈ a.engineNames
  names : ∀ n ∈ namesFor selection engine, n ∈ rules.map PatternRule.name

end

/-! ## Holding the engine -/

/-- The analyzer has the bundled engine, with rules that were built from some settings. -/
structure HoldsPatterns (a : Analyzer) (rules : List PatternRule) : Prop where
  slot : ∃ s, a.slots.get? Engine.patternsName = some s ∧ s.engine = .patterns rules
  built : ∃ settings, PatternRule.build settings = .ok rules

theorem HoldsPatterns.coherent {a : Analyzer} (h : a.HoldsPatterns rules) : PatternRule.Coherent rules := by
  obtain ⟨settings, hsettings⟩ := h.built
  exact PatternRule.coherent_of_build hsettings

/-- Asking engines for their rules leaves the bundled engine unchanged. -/
theorem Asked.holdsPatterns {es : List (Event LogLevel)} {a b : Analyzer} (hab : Asked es a b)
    (h : a.HoldsPatterns rules) : b.HoldsPatterns rules where
  slot := by
    obtain ⟨s, hs, hengine⟩ := h.slot
    obtain ⟨s', hs', hsame⟩ := hab.slot_of hs
    exact ⟨s', hs', hsame.trans hengine⟩
  built := h.built

theorem beginAttempt_bundled {a : Analyzer} (hfree : ¬ a.isRegistered Engine.patternsName = true)
    (hbuilt : PatternRule.build (a.config.engine Engine.patternsName) = .ok rules) :
    beginAttempt .bundled Engine.patternsName a =
      (.ok (some (a.config.engine Engine.patternsName, { outcome := .ok (.patterns rules) })), a) := by
  unfold beginAttempt
  rw [if_neg hfree]
  show (Except.ok (some (_, (⟨0, Engine.patterns <$> PatternRule.build _⟩ : Delayed Engine))), a) = _
  rw [hbuilt]
  rfl

/-- The bundled engine is made without rounds, so one turn registers it. -/
theorem addEngine_bundled {a : Analyzer} {settings : EngineConfig}
    (hfree : ¬ a.isRegistered Engine.patternsName = true)
    (hsettings : a.config.engine Engine.patternsName = settings)
    (hbuilt : PatternRule.build settings = .ok rules) :
    (addEngine .bundled Engine.patternsName).turn a =
      (.done (register Engine.patternsName settings (.patterns rules) a).1,
        (register Engine.patternsName settings (.patterns rules) a).2) := by
  subst hsettings
  have hend : endAttempt Engine.patternsName (a.config.engine Engine.patternsName)
      (.ok (.patterns rules)) a =
        register Engine.patternsName (a.config.engine Engine.patternsName) (.patterns rules) a := by
    unfold endAttempt
    simp only [Engine.reportedName]
    rw [if_neg (by simp), if_neg hfree]
  show (addEngine .bundled Engine.patternsName).resume a = _
  rw [addEngine, Work.resume_now_bind, beginAttempt_bundled hfree hbuilt, ← hend]
  rfl

/-- `addPlugin` of the bundled plugin registers the engine if its settings are accepted. -/
theorem addPlugin_bundled {a : Analyzer} (hnew : Engine.patternsName ∉ a.engineNames)
    (hquiet : ∀ e, a.Takes e)
    (hbuilt : PatternRule.build (a.config.engine Engine.patternsName) = .ok rules) :
    ∃ b, (addPlugin .bundled).drive a = (.ok (), b) ∧ b.HoldsPatterns rules := by
  have hfree : ¬ a.isRegistered Engine.patternsName = true :=
    fun h => hnew (Registering.isRegistered_iff.mp h)
  generalize hsettings : a.config.engine Engine.patternsName = settings at hbuilt
  have hturn := addEngine_bundled hfree hsettings hbuilt
  have hok : (register Engine.patternsName settings (.patterns rules) a).1.isOk = true :=
    register_isOk_iff.mpr (hquiet (addedEvent Engine.patternsName) a.clock)
  have hslots := register_slots Engine.patternsName settings (.patterns rules) a
  generalize register Engine.patternsName settings (.patterns rules) a = registered at hok hslots hturn
  obtain ⟨r, b⟩ := registered
  cases r with
  | error f => cases hok
  | ok u =>
    refine ⟨b, ?_, ⟨.fresh settings (.patterns rules) true, ?_, rfl⟩, settings, hbuilt⟩
    · show ((Work.gather 1 [addEngine .bundled Engine.patternsName]).bind fun _ => pure ()).drive a = _
      rw [Work.drive_bind, Work.gather_singleton hturn 0]
      rfl
    · rw [hslots, OrderedMap.get?_insert, if_pos rfl]
      rfl

section

variable {a : Analyzer} {selection : Selection} {o : RunOptions}

/-- `run` in a genuine workspace finds nothing at fault with the bundled engine. -/
theorem run_blameless {w : Workspace} {points : List String} (hholds : a.HoldsPatterns rules)
    (hquiet : ∀ e, a.Takes e) (hselects : a.Selects Engine.patternsName rules selection)
    (hw : a.Genuine w) (hresolved : RunOptions.resolve a.host w points = .ok o) :
    ∃ ran c, (run selection w points).drive a = (ran, c) ∧
      a.Blameless selection o Engine.patternsName ran := by
  obtain ⟨ran, c, hdrive, hcomes, -⟩ := run_comesTo hresolved hselects.registered fun e _ => hquiet e
  refine ⟨ran, c, hdrive, hcomes.blameless hselects.filed fun _ => ?_⟩
  obtain ⟨s, hs, hengine⟩ := hholds.slot
  have hworkspace : o.workspace = w := RunOptions.workspace_of_resolve hresolved
  unfold performance
  rw [hs]
  simp only [hengine, hworkspace]
  exact Engine.perform_acceptable o hholds.coherent.groups hw.proper hselects.filed hselects.names

end

/-! ## The catalogue -/

section

variable {a : Analyzer} {engine : String}

/-- The engine describes its rules, under distinct names. -/
theorem HoldsPatterns.describes (hholds : a.HoldsPatterns rules) (w : Workspace) :
    a.Describes w Engine.patternsName (rules.map PatternRule.toDescription) ∧
      ((rules.map PatternRule.toDescription).map RuleDescription.name).Nodup := by
  obtain ⟨s, hs, hengine⟩ := hholds.slot
  constructor
  · refine ⟨.descriptions (rules.map PatternRule.toDescription), ?_, rfl⟩
    unfold answer
    rw [hs]
    simp only [hengine]
    rfl
  · rw [List.map_map]
    exact hholds.coherent.names

/-- The rules that are listed for the engine are its own. -/
theorem HoldsPatterns.listing (hholds : a.HoldsPatterns rules) (w : Workspace) (hquiet : ∀ e, a.Takes e) :
    ∃ own, (∀ prior, a.listingAfter w Engine.patternsName prior = .ok own) ∧
      ∀ r ∈ own, r.name ∈ rules.map PatternRule.name := by
  obtain ⟨hdescribes, hnodup⟩ := hholds.describes w
  refine ⟨_, fun prior => (listing_of_describes hdescribes hnodup (fun e _ => hquiet e) _).1, ?_⟩
  intro r hr
  obtain ⟨d, hd, rfl⟩ := List.mem_map.mp hr
  obtain ⟨p, hp, rfl⟩ := List.mem_map.mp hd
  exact List.mem_map_of_mem hp

/-- A selection from the listed rules of all engines. -/
theorem selects_of_listed {w : Workspace} {own : List Rule} {listed : String → List Rule}
    (selectors : List String) (hlisted : ∀ o ∈ a.describings w, a.listingAfter w o.1 o.2 = .ok (listed o.1))
    (hown : ∀ prior, a.listingAfter w engine prior = .ok own)
    (hnames : ∀ r ∈ own, r.name ∈ rules.map PatternRule.name) :
    a.Selects engine rules (Selection.select (a.engineNames.flatMap listed) selectors) := by
  have hfiled := Selection.filed_select (a.engineNames.flatMap listed) selectors
  have hfrom : ∀ x r, r ∈ (Selection.select (a.engineNames.flatMap listed) selectors).rulesFor x →
      x ∈ a.engineNames ∧ r ∈ listed x := by
    intro x r hr
    obtain ⟨hmem, hx⟩ := Selection.mem_of_mem_select hr
    obtain ⟨x', hx', hr'⟩ := List.mem_flatMap.mp hmem
    obtain ⟨prior, hprior⟩ := mem_engineNames_iff_describings.mp hx'
    have hsame : x' = x := (engine_of_listing (hlisted _ hprior) r hr').symm.trans hx
    exact ⟨hsame ▸ hx', hsame ▸ hr'⟩
  refine ⟨hfiled, ?_, ?_⟩
  · intro x hx
    obtain ⟨r, hr⟩ := List.exists_mem_of_ne_nil _ (hfiled.nonempty x hx)
    exact (hfrom x r hr).1
  · intro n hn
    obtain ⟨r, hr, rfl⟩ := List.mem_map.mp hn
    obtain ⟨hmem, hr⟩ := hfrom engine r hr
    obtain ⟨prior, hprior⟩ := mem_engineNames_iff_describings.mp hmem
    have hsame : listed engine = own := Except.ok.inj ((hlisted _ hprior).symm.trans (hown prior))
    exact hnames r (hsame ▸ hr)

end

/-- An analyzer on a machine with one file, in which a line ends with a space. -/
def spacedFile : Analyzer where
  host := ⟨.folder [("main.py", .file (.bytes [97, 32, 10]))], [], "/home/user", []⟩

/-- The analyzer after `addPlugin` of the bundled plugin. -/
def withBundled : Analyzer := ((addPlugin .bundled).drive spacedFile).2

theorem withBundled_holds : withBundled.HoldsPatterns PatternRule.builtin := by
  have hquiet : ∀ e, spacedFile.Takes e := by
    intro e tick k hk
    cases hk
  obtain ⟨b, hdrive, hholds⟩ := @addPlugin_bundled PatternRule.builtin spacedFile (by decide) hquiet rfl
  have hb : withBundled = b := congrArg Prod.snd hdrive
  exact hb ▸ hholds

theorem expand_withBundled : Workspace.expand withBundled.host ["/"] = ["/main.py"] := by
  have hroot : Workspace.filesOf withBundled.host "/" = ["/main.py"] := by
    show Node.filesAmong _ "/" [("main.py", .file (.bytes [97, 32, 10]))] = _
    rw [Node.filesAmong, Node.filesAmong]
    rfl
  show ascending (Workspace.filesOf withBundled.host "/" ++ []) = _
  rw [hroot]
  rfl

theorem wellNamed_withBundled : withBundled.host.files.WellNamed :=
  ⟨⟨⟨by decide, by decide, by decide, by decide⟩, by decide⟩, trivial, trivial⟩

end Analyzer

end Polyscan
