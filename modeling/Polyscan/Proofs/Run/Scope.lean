import Mathlib.Data.List.Nodup
import Polyscan.Proofs.BuiltIn
import Polyscan.Proofs.Expansion

/-!
The scope of a run of the bundled engine. A start point is accepted if its path is textually below an input;
its file is scanned if the walk of the inputs lists it. The two differ behind a linked folder: a file there is
accepted and never scanned. In a file that is scanned every match of a selected rule is reported.
-/
namespace Polyscan

/-! ## What a scan reports -/

namespace PatternRule

/-- `find?` finds each rule by its name. -/
theorem find?_of_mem {rules : List PatternRule} {r : PatternRule}
    (hrules : (rules.map PatternRule.name).Nodup) (hr : r ∈ rules) : find? rules r.name = some r := by
  obtain ⟨other, hother⟩ := Option.isSome_iff_exists.mp
    (find?_isSome (List.mem_map_of_mem (f := PatternRule.name) hr))
  obtain ⟨hmem, hname⟩ := find?_eq_some hother
  rw [hother, List.inj_on_of_nodup_map hrules hmem hr hname]

/-- The findings of a rule in the text of a file to which it applies. -/
def FoundIn (h : Host) (r : PatternRule) (file : String) (f : Finding Int) : Prop :=
  r.appliesTo file = true ∧ ∃ text own, h.readText file = .ok text ∧
    r.findingsIn (.ofText file (Text.uniformNewlines text)) = .ok own ∧ f ∈ own

/-- `scanFile` leaves out no finding of a rule that applies. -/
theorem mem_of_scanFile {h : Host} {rules : List PatternRule} {r : PatternRule} {file : String}
    {found : List (Finding Int)} (hfound : scanFile h rules file = .ok found) (hr : r ∈ rules)
    {f : Finding Int} (hf : FoundIn h r file f) : f ∈ found := by
  obtain ⟨happlies, text, own, htext, hown, hf⟩ := hf
  have hmem : r ∈ rules.filter (·.appliesTo file) := List.mem_filter.mpr ⟨hr, happlies⟩
  unfold scanFile at hfound
  simp only at hfound
  split at hfound
  · next hempty =>
    rw [List.isEmpty_iff] at hempty
    rw [hempty] at hmem
    cases hmem
  · rw [htext] at hfound
    simp only [allFindingsIn] at hfound
    cases hall : (rules.filter (·.appliesTo file)).mapM
        fun r => r.findingsIn (.ofText file (Text.uniformNewlines text)) with
    | error e =>
      rw [hall] at hfound
      cases hfound
    | ok each =>
      rw [hall] at hfound
      cases hfound
      obtain ⟨own', hown', hsame⟩ := exists_partner (mapM_eq_ok_iff.mp hall) hmem
      rw [hown] at hsame
      cases hsame
      exact List.mem_flatten.mpr ⟨own, hown', hf⟩

end PatternRule

namespace Performance

variable {h : Host} {rules : List PatternRule} {total done : Nat}

/-- A report of mapped performance comes from a report. -/
theorem report_map_eq_ok {α β : Type} {f : α → β} {p : Performance α} {y : β}
    (hreport : (p.map f).report = .ok y) : ∃ x, p.report = .ok x ∧ y = f x := by
  unfold map at hreport
  cases hp : p.report with
  | error e =>
    rw [hp] at hreport
    cases hreport
  | ok x =>
    rw [hp] at hreport
    cases hreport
    exact ⟨x, rfl, rfl⟩

/-- A scan that reports has scanned the first file and then the others. -/
theorem ofScan_cons_eq_ok {file : String} {rest : List String} {fs : List (Finding Int)}
    (hreport : (ofScan h rules total done (file :: rest)).report = .ok fs) :
    ∃ found more, PatternRule.scanFile h rules file = .ok found ∧
      (ofScan h rules total (done + 1) rest).report = .ok more ∧ fs = found ++ more := by
  rw [ofScan] at hreport
  cases hfound : PatternRule.scanFile h rules file with
  | error e =>
    rw [hfound] at hreport
    cases hreport
  | ok found =>
    rw [hfound] at hreport
    have hmap : ((ofScan h rules total (done + 1) rest).map (found ++ ·)).report = .ok fs := hreport
    obtain ⟨more, hmore, hfs⟩ := report_map_eq_ok hmap
    exact ⟨found, more, rfl, hmore, hfs⟩

/-- The scan of files reports the findings in each of them. -/
theorem mem_of_ofScan {files : List String} {file : String} {fs : List (Finding Int)}
    (hreport : (ofScan h rules total done files).report = .ok fs) (hfile : file ∈ files) :
    ∃ found, PatternRule.scanFile h rules file = .ok found ∧ ∀ f ∈ found, f ∈ fs := by
  induction files generalizing done fs with
  | nil => cases hfile
  | cons first rest ih =>
    obtain ⟨found, more, hfound, hmore, rfl⟩ := ofScan_cons_eq_ok hreport
    rcases List.mem_cons.mp hfile with rfl | hfile
    · exact ⟨found, hfound, fun f hf => List.mem_append_left more hf⟩
    · obtain ⟨found', hfound', hsub⟩ := ih hmore hfile
      exact ⟨found', hfound', fun f hf => List.mem_append_right found (hsub f hf)⟩

end Performance

/-- `rulesNamed` gives every rule that has one of the names. -/
theorem Analyzer.mem_of_rulesNamed {rules chosen : List PatternRule} {names : List String}
    (hchosen : rulesNamed rules names = .ok chosen) (hrules : (rules.map PatternRule.name).Nodup)
    {r : PatternRule} (hr : r ∈ rules) (hname : r.name ∈ names) : r ∈ chosen := by
  unfold rulesNamed at hchosen
  split at hchosen
  · cases hchosen
    exact List.mem_filterMap.mpr ⟨r.name, hname, PatternRule.find?_of_mem hrules hr⟩
  · cases hchosen

namespace Engine

variable {h : Host} {rules : List PatternRule} {files names : List String} {o : RunOptions}
variable {report : Reported}

/-- A report of the engine is that of a scan of the files in scope with the named rules. -/
theorem perform_patterns_eq_ok (hreport : ((patterns rules).perform h files names o).report = .ok report) :
    ∃ chosen fs, Analyzer.rulesNamed rules names = .ok chosen ∧
      (Performance.ofScan h chosen (Analyzer.filesInScope o files).length 0
        (Analyzer.filesInScope o files)).report = .ok fs ∧ report = .findings fs := by
  simp only [perform] at hreport
  cases hchosen : Analyzer.rulesNamed rules names with
  | error missing =>
    rw [hchosen] at hreport
    cases hreport
  | ok chosen =>
    rw [hchosen] at hreport
    obtain ⟨fs, hfs, heq⟩ := Performance.report_map_eq_ok (f := Reported.findings)
      (p := Performance.ofScan h chosen (Analyzer.filesInScope o files).length 0
        (Analyzer.filesInScope o files)) hreport
    exact ⟨chosen, fs, rfl, hfs, heq⟩

/-- The engine's report has all findings of the named rules in the files in scope. -/
theorem mem_of_perform {fs : List (Finding Int)} (hrules : (rules.map PatternRule.name).Nodup)
    (hreport : ((patterns rules).perform h files names o).report = .ok report) (hreads : report.Reads fs)
    {file : String} (hfile : file ∈ Analyzer.filesInScope o files) {r : PatternRule} (hr : r ∈ rules)
    (hname : r.name ∈ names) {f : Finding Int} (hf : r.FoundIn h file f) : f ∈ fs := by
  obtain ⟨chosen, all, hchosen, hscan, rfl⟩ := perform_patterns_eq_ok hreport
  cases hreads
  obtain ⟨found, hfound, hsub⟩ := Performance.mem_of_ofScan hscan hfile
  exact hsub f (PatternRule.mem_of_scanFile hfound (Analyzer.mem_of_rulesNamed hchosen hrules hr hname) hf)

end Engine

namespace Analyzer

/-! ## Start points -/

/-- The file of a start point is in scope if and only if the workspace lists it. -/
theorem mem_filesInScope_iff {o : RunOptions} {ps : List PathPoint} (hps : o.startPoints = some ps)
    {p : PathPoint} (hp : p ∈ ps) {files : List String} :
    p.file ∈ filesInScope o files ↔ p.file ∈ files := by
  obtain ⟨first, rest, rfl⟩ := List.exists_cons_of_ne_nil (List.ne_nil_of_mem hp)
  have hwithin : isWithinAny ((first :: rest).map PathPoint.file) p.file = true :=
    List.any_eq_true.mpr ⟨p.file, List.mem_map_of_mem hp, by simp [Path.isWithin]⟩
  unfold filesInScope
  rw [hps]
  simp only [List.mem_filter, hwithin, and_true]

/-- The violations include all findings in the file of the rules that are selected for the bundled engine. -/
def ReportsAll (a : Analyzer) (rules : List PatternRule) (selection : Selection) (file : String)
    (vs : List Violation) : Prop :=
  ∀ r ∈ rules, r.name ∈ namesFor selection Engine.patternsName → ∀ f, r.FoundIn a.host file f →
    ∃ v ∈ vs, Violation.Tied selection Engine.patternsName f v

/-- `run` of the bundled engine from accepted start points, in a workspace that `createWorkspace` made, over
an unchanged tree of files. The file of a start point is in scope if and only if an input `Reaches` it with no
link below the input. If so, and the run returns, all findings of the selected rules in it are among the
violations. -/
theorem run_scans_startPoints {a : Analyzer} {rules : List PatternRule} {selection : Selection}
    {w : Workspace} {points : List String} {o : RunOptions} (hholds : a.HoldsPatterns rules)
    (hquiet : ∀ e, a.Takes e) (hselects : a.Selects Engine.patternsName rules selection)
    (hmade : ∃ (b : Analyzer) (paths : List String), (createWorkspace paths b).1 = .ok w)
    (hnamed : a.host.files.WellNamed) (hdistinct : a.host.files.Unambiguous)
    (hlisted : a.filesOf w = Workspace.expand a.host w.inputs)
    (hresolved : RunOptions.resolve a.host w points = .ok o) :
    ∃ ran c, (run selection w points).drive a = (ran, c) ∧
      a.Blameless selection o Engine.patternsName ran ∧
      ∀ ps, o.startPoints = some ps → ∀ p ∈ ps, a.host.isFile p.file = true →
        (p.file ∈ filesInScope o (a.filesOf w) ↔ Workspace.Reaches a.host w.inputs p.file) ∧
        (Workspace.Reaches a.host w.inputs p.file → ∀ results, ran = .ok results →
          Engine.patternsName ∈ selection.engineNames →
            ∃ vs, results.byEngine.get? Engine.patternsName = some ⟨Engine.patternsName, .ok vs⟩ ∧
              a.ReportsAll rules selection p.file vs) := by
  obtain ⟨ran, c, hdrive, hblameless⟩ :=
    run_blameless hholds hquiet hselects ⟨hmade, a.host, hnamed, hlisted⟩ hresolved
  refine ⟨ran, c, hdrive, hblameless, fun ps hps p hp hfile => ?_⟩
  have hinputs : ∀ i ∈ w.inputs, Path.Proper i := by
    obtain ⟨b, paths, hw⟩ := hmade
    exact proper_of_createWorkspace hw
  have hscope : p.file ∈ filesInScope o (a.filesOf w) ↔ Workspace.Reaches a.host w.inputs p.file := by
    rw [mem_filesInScope_iff hps hp, hlisted]
    exact Workspace.mem_expand_iff hnamed hdistinct hinputs hfile
  refine ⟨hscope, fun hreaches results hresults hmem => ?_⟩
  obtain ⟨r, fs, vs, hreport, hreads, hvs, htied, -⟩ := hblameless.kept results hresults hmem
  refine ⟨vs, hvs, fun rule hrule hname f hf => ?_⟩
  obtain ⟨s, hs, hengine⟩ := hholds.slot
  have hworkspace : o.workspace = w := RunOptions.workspace_of_resolve hresolved
  unfold performance at hreport
  rw [hs] at hreport
  simp only [hengine, hworkspace] at hreport
  have hall : f ∈ fs :=
    Engine.mem_of_perform hholds.coherent.names hreport hreads (hscope.mpr hreaches) hrule hname hf
  exact exists_partner htied hall

/-! ### A linked folder -/

/-- An analyzer on a machine with a folder that holds a file and a link to another folder. In the files of
both folders a line ends with a space. -/
def linkedFolder : Analyzer where
  host := ⟨.folder [("app", .folder [("main.py", .file (.bytes [97, 32, 10])), ("lib", .link "/shared")]),
    ("shared", .folder [("util.py", .file (.bytes [98, 32, 10]))])], [], "/home/user", []⟩

/-- The analyzer after `addPlugin` of the bundled plugin. -/
def linkedBundled : Analyzer := ((addPlugin .bundled).drive linkedFolder).2

def linkedWorkspace : Workspace := ⟨0, "workspace1", ["/app"]⟩

/-- The one rule of the built-in engine. -/
def trailingOnly : Selection :=
  .ofList [⟨Engine.patternsName, PatternRule.trailingWhitespace.toDescription⟩]

theorem linkedBundled_takes (e : Event LogLevel) : linkedBundled.Takes e := by
  intro tick k hk
  cases hk

theorem linkedBundled_holds : linkedBundled.HoldsPatterns PatternRule.builtin := by
  have hquiet : ∀ e, linkedFolder.Takes e := by
    intro e tick k hk
    cases hk
  obtain ⟨b, hdrive, hholds⟩ := @addPlugin_bundled PatternRule.builtin linkedFolder (by decide) hquiet rfl
  have hb : linkedBundled = b := congrArg Prod.snd hdrive
  exact hb ▸ hholds

theorem linkedBundled_selects :
    linkedBundled.Selects Engine.patternsName PatternRule.builtin trailingOnly where
  filed := Selection.filed_ofList _
  registered x hx := by
    have hall : ∀ x ∈ trailingOnly.engineNames, x ∈ linkedBundled.engineNames := by decide
    exact hall x hx
  names := by decide

theorem wellNamed_linkedBundled : linkedBundled.host.files.WellNamed := by
  have hentry : ∀ c ∈ ["app", "main.py", "lib", "shared", "util.py"], Path.IsEntry c := by
    simp only [List.forall_mem_cons]
    exact ⟨⟨⟨by decide, by decide, by decide, by decide⟩, by decide⟩,
      ⟨⟨by decide, by decide, by decide, by decide⟩, by decide⟩,
      ⟨⟨by decide, by decide, by decide, by decide⟩, by decide⟩,
      ⟨⟨by decide, by decide, by decide, by decide⟩, by decide⟩,
      ⟨⟨by decide, by decide, by decide, by decide⟩, by decide⟩, by simp⟩
  exact ⟨hentry _ (by simp), ⟨hentry _ (by simp), trivial, hentry _ (by simp), trivial, trivial⟩,
    hentry _ (by simp), ⟨hentry _ (by simp), trivial, trivial⟩, trivial⟩

theorem createWorkspace_linkedBundled :
    (createWorkspace ["/app"] linkedBundled).1 = .ok linkedWorkspace := rfl

theorem unambiguous_linkedBundled : linkedBundled.host.files.Unambiguous := by
  refine Node.unambiguous_folder (by decide)
    (List.forall_mem_cons.mpr ⟨?_, List.forall_mem_singleton.mpr ?_⟩)
  · exact Node.unambiguous_folder (by decide) (List.forall_mem_cons.mpr
      ⟨Node.unambiguous_of_not_folder rfl,
        List.forall_mem_singleton.mpr (Node.unambiguous_of_not_folder rfl)⟩)
  · exact Node.unambiguous_folder (by decide)
      (List.forall_mem_singleton.mpr (Node.unambiguous_of_not_folder rfl))

theorem expand_linkedBundled : Workspace.expand linkedBundled.host ["/app"] = ["/app/main.py"] := by
  have hfolder : Workspace.filesOf linkedBundled.host "/app" = ["/app/main.py"] := by
    show Node.filesAmong linkedBundled.host.isFolder "/app"
      [("main.py", .file (.bytes [97, 32, 10])), ("lib", .link "/shared")] = _
    rw [Node.filesAmong, Node.filesAmong, Node.filesAmong]
    rfl
  show ascending (Workspace.filesOf linkedBundled.host "/app" ++ []) = _
  rw [hfolder]
  rfl

/-- The trailing space in the file beside the link is reported. -/
theorem run_scans_startPoints_besideLink :
    ∃ results c vs v, (run trailingOnly linkedWorkspace ["/app/main.py"]).drive linkedBundled =
        (.ok results, c) ∧
      results.byEngine.get? Engine.patternsName = some ⟨Engine.patternsName, .ok vs⟩ ∧ v ∈ vs ∧
      Violation.Tied trailingOnly Engine.patternsName
        (PatternRule.trailingWhitespace.finding (.ofText "/app/main.py" ['a', ' ', '\n']) 1 2) v := by
  have hresolved : RunOptions.resolve linkedBundled.host linkedWorkspace ["/app/main.py"] =
      .ok ⟨linkedWorkspace, some [⟨"/app/main.py", none⟩]⟩ := rfl
  have hlisted : linkedBundled.filesOf linkedWorkspace =
      Workspace.expand linkedBundled.host linkedWorkspace.inputs := filesOf_of_fresh rfl
  obtain ⟨ran, c, hdrive, hblameless, hpoints⟩ :=
    run_scans_startPoints linkedBundled_holds linkedBundled_takes linkedBundled_selects
      ⟨_, _, createWorkspace_linkedBundled⟩ wellNamed_linkedBundled unambiguous_linkedBundled hlisted
      hresolved
  obtain ⟨results, hresults, -⟩ := hblameless.alone (by decide)
  obtain ⟨hscope, hreports⟩ := hpoints _ rfl ⟨"/app/main.py", none⟩ List.mem_cons_self rfl
  have hreaches : Workspace.Reaches linkedBundled.host linkedWorkspace.inputs "/app/main.py" := by
    refine hscope.mp ?_
    rw [mem_filesInScope_iff rfl List.mem_cons_self, hlisted]
    show "/app/main.py" ∈ Workspace.expand linkedBundled.host ["/app"]
    rw [expand_linkedBundled]
    exact List.mem_cons_self
  obtain ⟨vs, hvs, hall⟩ := hreports hreaches results hresults (by decide)
  obtain ⟨v, hv, htied⟩ := hall PatternRule.trailingWhitespace List.mem_cons_self (by decide) _
    ⟨by decide, ['a', ' ', '\n'], _, rfl, rfl, List.mem_cons_self⟩
  subst hresults
  exact ⟨results, c, vs, v, hdrive, hvs, hv, htied⟩

/-- The file behind the link is accepted as a start point but not listed: the run returns without a violation
although the selected rule has a finding in it. -/
theorem run_omits_linkedFile :
    (createWorkspace ["/app"] linkedBundled).1 = .ok linkedWorkspace ∧
      (∃ o, RunOptions.resolve linkedBundled.host linkedWorkspace ["/app/lib/util.py"] = .ok o) ∧
      linkedBundled.host.isFile "/app/lib/util.py" = true ∧
      PatternRule.trailingWhitespace.FoundIn linkedBundled.host "/app/lib/util.py"
        (PatternRule.trailingWhitespace.finding (.ofText "/app/lib/util.py" ['b', ' ', '\n']) 1 2) ∧
      ∃ results c, (run trailingOnly linkedWorkspace ["/app/lib/util.py"]).drive linkedBundled =
          (.ok results, c) ∧ results.failedEngines = [] ∧
        results.byEngine.get? Engine.patternsName = some ⟨Engine.patternsName, .ok []⟩ := by
  have hresolved : RunOptions.resolve linkedBundled.host linkedWorkspace ["/app/lib/util.py"] =
      .ok ⟨linkedWorkspace, some [⟨"/app/lib/util.py", none⟩]⟩ := rfl
  have hfiles : linkedBundled.filesOf linkedWorkspace = ["/app/main.py"] :=
    (filesOf_of_fresh rfl).trans expand_linkedBundled
  have hgenuine : linkedBundled.Genuine linkedWorkspace :=
    .of_fresh createWorkspace_linkedBundled wellNamed_linkedBundled rfl
  refine ⟨createWorkspace_linkedBundled, ⟨_, hresolved⟩, rfl,
    ⟨by decide, ['b', ' ', '\n'], _, rfl, rfl, List.mem_cons_self⟩, ?_⟩
  obtain ⟨ran, c, hdrive, hblameless⟩ := run_blameless linkedBundled_holds linkedBundled_takes
    linkedBundled_selects hgenuine hresolved
  obtain ⟨results, rfl, hnone⟩ := hblameless.alone (by decide)
  obtain ⟨r, fs, vs, hreport, hreads, hvs, htied, -⟩ := hblameless.kept results rfl (by decide)
  have hempty : (linkedBundled.performance trailingOnly
      ⟨linkedWorkspace, some [⟨"/app/lib/util.py", none⟩]⟩ Engine.patternsName).report =
        .ok (.findings []) := by
    show ((Engine.patterns PatternRule.builtin).perform linkedBundled.host
      (linkedBundled.filesOf linkedWorkspace) _ _).report = _
    rw [hfiles]
    rfl
  cases Except.ok.inj (hempty.symm.trans hreport)
  cases hreads
  cases htied
  exact ⟨results, c, hdrive, hnone, hvs⟩

end Analyzer

end Polyscan
