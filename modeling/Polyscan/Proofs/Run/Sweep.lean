import Mathlib.Algebra.Order.Field.Basic
import Mathlib.Data.Rat.Defs
import Mathlib.Tactic.FieldSimp
import Mathlib.Tactic.Linarith
import Polyscan.Proofs.Run.Scope

/-!
`runPatterns` in detail. It scans the files in scope once each, in order, emits its progress after each of
them, and reports the findings file by file. For a name that no rule has it fails before it does anything.
-/
namespace Polyscan

/-! ## How much is done -/

/-- The value of a share in exact arithmetic. -/
def Percent.hundredths? : Percent → Option ℚ
  | share part whole => some (100 * part / whole)
  | given _ => none

/-- The share of a progress message. -/
def EngineMessage.hundredths? : EngineMessage → Option ℚ
  | log .. => none
  | progress percent => percent.hundredths?

/-- The progress messages of a scan of so many files. -/
def EngineMessage.progressOf (n : Nat) : List EngineMessage :=
  (List.range n).map fun k => .progress (.share (k + 1) n)

/-- The numbers rise to a hundred in so many equal steps. -/
structure Climbs (n : Nat) (qs : List ℚ) : Prop where
  values : qs = (List.range n).map fun k : Nat => 100 * ((k : ℚ) + 1) / n
  bounds : ∀ q ∈ qs, 0 < q ∧ q ≤ 100
  rising : qs.Pairwise (· < ·)
  last : n ≠ 0 → qs.getLast? = some 100

section

variable {n : Nat}

theorem hundredths_progressOf (n : Nat) :
    (EngineMessage.progressOf n).filterMap EngineMessage.hundredths? =
      (List.range n).map fun k : Nat => 100 * ((k : ℚ) + 1) / n := by
  unfold EngineMessage.progressOf
  rw [List.filterMap_map, ← List.filterMap_eq_map]
  congr 1
  funext k
  simp [EngineMessage.hundredths?, Percent.hundredths?]

/-- The share grows with each file. -/
theorem share_lt_share {j k : Nat} (hn : 0 < n) (hjk : j < k) :
    100 * ((j : ℚ) + 1) / n < 100 * ((k : ℚ) + 1) / n := by
  have hpos : (0 : ℚ) < n := by exact_mod_cast hn
  have hlt : (j : ℚ) < k := by exact_mod_cast hjk
  apply div_lt_div_of_pos_right _ hpos
  linarith

theorem share_bounds {k : Nat} (hk : k < n) :
    0 < 100 * ((k : ℚ) + 1) / n ∧ 100 * ((k : ℚ) + 1) / n ≤ 100 := by
  have hpos : (0 : ℚ) < n := by exact_mod_cast Nat.zero_lt_of_lt hk
  have hle : (k : ℚ) + 1 ≤ n := by exact_mod_cast hk
  have hk0 : (0 : ℚ) ≤ k := k.cast_nonneg
  constructor
  · apply div_pos _ hpos
    linarith
  · rw [div_le_iff₀ hpos]
    linarith

theorem climbs_progressOf (n : Nat) :
    Climbs n ((EngineMessage.progressOf n).filterMap EngineMessage.hundredths?) := by
  rw [hundredths_progressOf]
  refine ⟨rfl, ?_, ?_, ?_⟩
  · intro q hq
    obtain ⟨k, hk, rfl⟩ := List.mem_map.mp hq
    exact share_bounds (List.mem_range.mp hk)
  · rw [List.pairwise_map]
    refine List.Pairwise.imp_of_mem ?_ List.pairwise_lt_range
    intro j k hj hk hjk
    exact share_lt_share (Nat.zero_lt_of_lt (List.mem_range.mp hj)) hjk
  · intro hn
    obtain ⟨m, rfl⟩ := Nat.exists_eq_succ_of_ne_zero hn
    have hm : ((m : ℚ) + 1) ≠ 0 := by exact_mod_cast Nat.succ_ne_zero m
    rw [List.range_succ, List.map_append, List.map_singleton, List.getLast?_concat]
    congr 1
    push_cast
    field_simp

end

/-! ## What is scanned -/

/-- The run has no start points, or one is this file or a folder above it. -/
def RunOptions.Covers (o : RunOptions) (file : String) : Prop :=
  ∀ ps, o.startPoints = some ps → ps ≠ [] → ∃ p ∈ ps, file = p.file ∨ Path.IsBeneath file p.file

namespace Analyzer

variable {o : RunOptions} {files : List String} {file : String}

theorem isWithinAny_iff {roots : List String} :
    isWithinAny roots file = true ↔ ∃ root ∈ roots, file = root ∨ Path.IsBeneath file root := by
  unfold isWithinAny
  rw [List.any_eq_true]
  simp only [Path.isWithin_iff]

theorem filesInScope_sublist (o : RunOptions) (files : List String) :
    (filesInScope o files).Sublist files := by
  unfold filesInScope
  split
  · exact .refl files
  · exact .refl files
  · exact List.filter_sublist

/-- A file is in scope if and only if it is listed and covered by the options, however start points overlap. -/
theorem mem_filesInScope_iff_covers : file ∈ filesInScope o files ↔ file ∈ files ∧ o.Covers file := by
  unfold filesInScope RunOptions.Covers
  cases hpoints : o.startPoints with
  | none => simp
  | some ps =>
    cases ps with
    | nil => simp
    | cons p rest =>
      simp only [List.mem_filter, isWithinAny_iff, List.mem_map, exists_exists_and_eq_and]
      refine and_congr_right fun _ => ?_
      constructor
      · rintro hcovers ps' heq -
        cases heq
        exact hcovers
      · intro hcovers
        exact hcovers _ rfl (List.cons_ne_nil p rest)

end Analyzer

/-- A scan that fails at none of the files reports its progress after each, and the findings file by file. -/
theorem Performance.ofScan_eq {h : Host} {rules : List PatternRule} {files : List String}
    {found : List (List (Finding Int))} (total done : Nat)
    (hscans : List.Forall₂ (fun file fs => PatternRule.scanFile h rules file = .ok fs) files found) :
    ofScan h rules total done files =
      ⟨(List.range files.length).map fun k => .progress (.share (done + k + 1) total), .ok found.flatten⟩ := by
  induction hscans generalizing done with
  | nil => rfl
  | cons hscan hrest ih =>
    unfold ofScan
    rw [hscan]
    simp only [ih, after, map, List.length_cons, List.range_succ_eq_map, List.map_cons, List.map_map]
    congr 2
    refine List.map_congr_left fun k _ => ?_
    simp only [Function.comp_apply, Nat.succ_eq_add_one]
    congr 2
    omega

theorem exists_partners {α β : Type} {R : α → β → Prop} {l : List α} (h : ∀ x ∈ l, ∃ y, R x y) :
    ∃ m, List.Forall₂ R l m := by
  induction l with
  | nil => exact ⟨[], .nil⟩
  | cons x rest ih =>
    obtain ⟨y, hy⟩ := h x List.mem_cons_self
    obtain ⟨m, hm⟩ := ih fun z hz => h z (List.mem_cons_of_mem x hz)
    exact ⟨y :: m, .cons hy hm⟩

/-! ## Runs of the engine -/

namespace Analyzer

/-- The scanned files are those of the workspace that the options cover, in ascending order. The messages are
a notice at the beginning and the progress after each file, and the report has the findings of the named rules
file by file. -/
structure Sweeps (a : Analyzer) (rules : List PatternRule) (names : List String) (o : RunOptions)
    (files : List String) (messages : List EngineMessage) (report : List (Finding Int)) : Prop where
  scope : ∀ file, file ∈ files ↔ file ∈ a.filesOf o.workspace ∧ o.Covers file
  sorted : files.Pairwise (· < ·)
  emitted : messages = scanNotice files.length names :: EngineMessage.progressOf files.length
  climbs : Climbs files.length (messages.filterMap EngineMessage.hundredths?)
  found : ∃ chosen, List.Forall₂ (fun name r => PatternRule.find? rules name = some r) names chosen ∧
    ∃ found, List.Forall₂ (fun file fs => PatternRule.scanFile a.host chosen file = .ok fs) files found ∧
      report = found.flatten

variable {a : Analyzer} {rules : List PatternRule} {settings : EngineConfig} {engine : String} {s : Slot}
variable {h : Host} {o : RunOptions} {names : List String}

/-- `rulesNamed` gives the rules in the order of the names. -/
theorem rulesNamed_of_known (hnames : ∀ n ∈ names, n ∈ rules.map PatternRule.name) :
    ∃ chosen, rulesNamed rules names = .ok chosen ∧
      List.Forall₂ (fun name r => PatternRule.find? rules name = some r) names chosen := by
  have hfound : ∀ n ∈ names, ∃ r, PatternRule.find? rules n = some r :=
    fun n hn => Option.isSome_iff_exists.mp (PatternRule.find?_isSome (hnames n hn))
  obtain ⟨chosen, hpartners⟩ := exists_partners hfound
  refine ⟨chosen, ?_, hpartners⟩
  have hnone : names.filter (fun n => (PatternRule.find? rules n).isNone) = [] := by
    rw [List.filter_eq_nil_iff]
    intro n hn
    obtain ⟨r, hr⟩ := hfound n hn
    simp [hr]
  have hall : names.filterMap (PatternRule.find? rules) = chosen := by
    clear hfound hnone hnames
    induction hpartners with
    | nil => rfl
    | cons hr _ ih => rw [List.filterMap_cons_some hr, ih]
  unfold rulesNamed
  rw [hnone, hall]

/-- `rulesNamed` fails with the names that no rule has, in the order in which they are given. -/
theorem rulesNamed_of_unknown (hunknown : ∃ n ∈ names, n ∉ rules.map PatternRule.name) :
    rulesNamed rules names = .error (names.filter fun n => n ∉ rules.map PatternRule.name) := by
  have hmissing : names.filter (fun n => (PatternRule.find? rules n).isNone) =
      names.filter fun n => n ∉ rules.map PatternRule.name := by
    refine List.filter_congr fun n _ => ?_
    rw [Bool.eq_iff_iff, decide_eq_true_eq, Option.isNone_iff_eq_none]
    constructor
    · intro hnone hmem
      have hsome := PatternRule.find?_isSome hmem
      rw [hnone] at hsome
      cases hsome
    · intro hnot
      rw [Option.eq_none_iff_forall_ne_some]
      intro r hr
      obtain ⟨hmem, rfl⟩ := PatternRule.find?_eq_some hr
      exact hnot (List.mem_map_of_mem hmem)
  obtain ⟨n, hn, hnot⟩ := hunknown
  unfold rulesNamed
  rw [hmissing]
  cases hfilter : names.filter fun n => n ∉ rules.map PatternRule.name with
  | nil =>
    rw [List.filter_eq_nil_iff] at hfilter
    exact absurd (decide_eq_true hnot) (hfilter n hn)
  | cons first rest => rfl

/-- `runPatterns` with names of existing rules scans the files in scope as `Sweeps` says, under any listeners,
and returns the report if none of them raises on a forwarded message. With the name of a rule that does not
exist it fails with the unknown names and has no other effect. -/
theorem runPatterns_sweeps (hbuilt : PatternRule.build settings = .ok rules)
    (hs : a.slots.get? engine = some s) (hnamed : h.files.WellNamed)
    (hlisted : a.filesOf o.workspace = Workspace.expand h o.workspace.inputs) (names : List String) :
    ((∀ n ∈ names, n ∈ rules.map PatternRule.name) →
      ∃ files messages report, Sweeps a rules names o files messages report ∧
        Enacts o (runPatterns engine rules names o) a (.ok report)
          ((stamped a.clock (s.forwarded engine messages)).map .emits) ∧
        (a.TakesAll (s.forwarded engine messages) →
          ∃ b, (runPatterns engine rules names o).drive a = (.ok report, b) ∧
            Course o (s.forwarded engine messages) [] a b)) ∧
    ((∃ n ∈ names, n ∉ rules.map PatternRule.name) →
      runPatterns engine rules names o =
        throw (unknownRules (names.filter fun n => n ∉ rules.map PatternRule.name))) := by
  constructor
  · intro hknown
    obtain ⟨chosen, hchosen, hpartners⟩ := rulesNamed_of_known hknown
    have hreportable : ∀ r ∈ chosen, r.Reportable := by
      intro r hr
      obtain ⟨n, -, hfound⟩ := exists_partner hpartners.flip hr
      exact (PatternRule.coherent_of_build hbuilt).groups r (PatternRule.find?_eq_some hfound).1
    have hzero : ∀ file ∈ filesInScope o (a.filesOf o.workspace), '\x00' ∉ file.toList := by
      intro file hfile
      have hmem := (filesInScope_sublist o _).subset hfile
      rw [hlisted] at hmem
      exact Workspace.noZero_of_mem_expand hnamed _ file hmem
    obtain ⟨found, hscans⟩ := exists_partners (R := fun file fs =>
      PatternRule.scanFile a.host chosen file = .ok fs) fun file hfile =>
        PatternRule.exists_scanFile (hzero file hfile) hreportable
    have hperform := Performance.ofScan_eq (filesInScope o (a.filesOf o.workspace)).length 0 hscans
    have henacts := runPatterns_enacts_of_known (o := o) hchosen hs
    rw [hperform] at henacts
    simp only [Nat.zero_add] at henacts
    refine ⟨_, _, _, ⟨fun file => mem_filesInScope_iff_covers, ?_, rfl, climbs_progressOf _, chosen, hpartners,
      found, hscans, rfl⟩, henacts, henacts.of_takesAll⟩
    rw [hlisted]
    exact (pairwise_ascending _).sublist (filesInScope_sublist o _)
  · intro hunknown
    unfold runPatterns
    rw [rulesNamed_of_unknown hunknown]

/-- Start points are the root and a method of the one file, which is scanned once. -/
theorem runPatterns_sweeps_withBundled :
    ∃ files messages report b,
      Sweeps withBundled PatternRule.builtin ["TrailingWhitespace"]
        ⟨anywhere, some [⟨"/", none⟩, ⟨"/main.py", some "run"⟩]⟩ files messages report ∧
      "/main.py" ∈ files ∧
      (runPatterns Engine.patternsName PatternRule.builtin ["TrailingWhitespace"]
        ⟨anywhere, some [⟨"/", none⟩, ⟨"/main.py", some "run"⟩]⟩).drive withBundled = (.ok report, b) := by
  obtain ⟨s, hs, -⟩ := withBundled_holds.slot
  obtain ⟨settings, hbuilt⟩ := withBundled_holds.built
  have hlisted : withBundled.filesOf anywhere = Workspace.expand withBundled.host anywhere.inputs :=
    filesOf_of_fresh rfl
  obtain ⟨hknown, -⟩ := runPatterns_sweeps (o := ⟨anywhere, some [⟨"/", none⟩, ⟨"/main.py", some "run"⟩]⟩)
    hbuilt hs wellNamed_withBundled hlisted ["TrailingWhitespace"]
  obtain ⟨files, messages, report, hsweeps, -, hquiet⟩ := hknown (by decide)
  have htakes : withBundled.TakesAll (s.forwarded Engine.patternsName messages) := by
    intro e _ tick k hk
    cases hk
  obtain ⟨b, hdrive, -⟩ := hquiet htakes
  refine ⟨files, messages, report, b, hsweeps, (hsweeps.scope _).mpr ⟨?_, ?_⟩, hdrive⟩
  · show "/main.py" ∈ withBundled.filesOf anywhere
    rw [hlisted]
    show "/main.py" ∈ Workspace.expand withBundled.host ["/"]
    rw [expand_withBundled]
    exact List.mem_singleton_self _
  · rintro ps heq -
    cases heq
    exact ⟨⟨"/main.py", some "run"⟩, by simp, .inl rfl⟩

end Analyzer

end Polyscan
