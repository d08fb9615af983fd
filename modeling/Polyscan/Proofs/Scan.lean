import Polyscan.Proofs.Finding.Sound
import Polyscan.Proofs.Host
import Polyscan.Proofs.Items
import Polyscan.Proofs.Pattern.Succession
import Polyscan.Proofs.PatternRule
import Polyscan.Scan

/-!
Findings of pattern rules pass the checks of `Finding.check`. The line search is a bisection on the line
starts, which is monotone in the offset (`lineIndex_mono`), and columns are positive because the first line
starts at zero. So every location of a scan is sound, whatever the text of the file.
-/
namespace Polyscan

/-! ## Lines and columns -/

namespace Text

section

variable {starts : Array Nat}

theorem lineIndex_bounds (offset : Int) {lo hi : Nat} (h : lo ≤ hi) :
    lo ≤ lineIndex starts offset lo hi ∧ lineIndex starts offset lo hi ≤ hi := by
  fun_induction lineIndex starts offset lo hi with
  | case1 lo hi hlt mid hmid ih =>
    -- upper half; the middle is above `lo`
    have := ih (by omega)
    omega
  | case2 lo hi hlt mid hmid ih =>
    -- lower half; the middle is not below `lo`
    have := ih (by omega)
    omega
  | case3 lo hi hlt => omega

/-- The line of an offset starts at the offset or before it, if the lowest line of the search does. -/
theorem start_le_of_lineIndex {offset : Int} {lo : Nat} (hi : Nat) (h : (starts.getD lo 0 : Int) ≤ offset) :
    (starts.getD (lineIndex starts offset lo hi) 0 : Int) ≤ offset := by
  fun_induction lineIndex starts offset lo hi with
  | case1 lo hi hlt mid hmid ih => exact ih hmid
  | case2 lo hi hlt mid hmid ih => exact ih h
  | case3 lo hi hlt => exact h

/-- A later offset is not in an earlier line. -/
theorem lineIndex_mono {m n : Int} (hmn : m ≤ n) {lo hi : Nat} (h : lo ≤ hi) :
    lineIndex starts m lo hi ≤ lineIndex starts n lo hi := by
  fun_induction lineIndex starts m lo hi with
  | case1 lo hi hlt mid hmid ih =>
    have hsame : lineIndex starts n lo hi = lineIndex starts n mid hi := by
      rw [lineIndex, if_pos hlt]
      exact if_pos (Int.le_trans hmid hmn)
    rw [hsame]
    exact ih (by omega)
  | case2 lo hi hlt mid hmid ih =>
    rw [lineIndex.eq_def starts n lo hi, if_pos hlt]
    show _ ≤ if (starts.getD mid 0 : Int) ≤ n then _ else _
    by_cases hn : (starts.getD mid 0 : Int) ≤ n
    · -- the two offsets part here: one stays below the middle, the other goes on above it
      rw [if_pos hn]
      have hbelow : lineIndex starts m lo (mid - 1) ≤ mid - 1 := (lineIndex_bounds m (by omega)).2
      have habove : mid ≤ lineIndex starts n mid hi := (lineIndex_bounds n (by omega)).1
      exact Nat.le_trans hbelow (Nat.le_trans (Nat.sub_le mid 1) habove)
    · rw [if_neg hn]
      exact ih (by omega)
  | case3 lo hi hlt =>
    have hend : lineIndex starts n lo hi = lo := by
      rw [lineIndex, if_neg hlt]
    exact Nat.le_of_eq hend.symm

theorem line_position_mono {m n : Int} (h : m ≤ n) : (position starts m).line ≤ (position starts n).line :=
  Nat.succ_le_succ (lineIndex_mono h (Nat.zero_le _))

theorem line_position_pos (offset : Int) : 1 ≤ (position starts offset).line :=
  Nat.succ_le_succ (Nat.zero_le _)

/-- Columns are positive if the first line starts at zero. -/
theorem column_position_pos (h : starts.getD 0 0 = 0) (offset : Nat) :
    1 ≤ (position starts offset).column := by
  have hfirst : (starts.getD 0 0 : Int) ≤ (offset : Int) := by
    rw [h]
    exact Int.natCast_nonneg offset
  have hstart := start_le_of_lineIndex (starts.size - 1) hfirst
  show 1 ≤ (offset : Int) - (starts.getD (lineIndex starts offset 0 (starts.size - 1)) 0 : Int) + 1
  omega

theorem column_position_mono {m n : Int} (h : m ≤ n)
    (hline : (position starts m).line = (position starts n).line) :
    (position starts m).column ≤ (position starts n).column := by
  have hindex : lineIndex starts m 0 (starts.size - 1) = lineIndex starts n 0 (starts.size - 1) :=
    Nat.succ.inj hline
  show m - (starts.getD (lineIndex starts m 0 (starts.size - 1)) 0 : Int) + 1 ≤
    n - (starts.getD (lineIndex starts n 0 (starts.size - 1)) 0 : Int) + 1
  rw [hindex]
  omega

end

end Text

/-! ## Texts of files -/

/-- The text belongs to a path that a finding may report, and its first line starts at zero. -/
structure Scanned.Grounded (h : Host) (s : Scanned) : Prop where
  file : ∃ path, h.resolve s.file = .ok path ∧ h.isFile path = true
  starts : s.starts.getD 0 0 = 0

theorem Scanned.grounded_ofText {h : Host} {file : String} (hfile : Path.Normal file)
    (hthere : h.isFile file = true) (text : List Char) : (Scanned.ofText file text).Grounded h where
  file := ⟨file, h.resolve_of_normal hfile, hthere⟩
  starts := rfl

/-- The location between two offsets is sound. -/
theorem Scanned.Grounded.location_sound {h : Host} {s : Scanned} (hs : s.Grounded h) {first last : Nat}
    (hle : first ≤ last) : (s.location first last).Sound h where
  file := hs.file
  startLine := Int.ofNat_le.mpr (Text.line_position_pos _)
  startColumn := Text.column_position_pos hs.starts first
  endLine n hn := by
    cases hn
    exact Int.ofNat_le.mpr (Text.line_position_mono (Int.ofNat_le.mpr hle))
  endColumn n hn := by
    cases hn
    refine ⟨Text.column_position_pos hs.starts last, fun hsame => ?_⟩
    have hline : (Text.position s.starts last).line = (Text.position s.starts first).line :=
      Int.ofNat_inj.mp (Option.some.inj hsame)
    exact Text.column_position_mono (Int.ofNat_le.mpr hle) hline.symm

/-! ## Findings -/

/-- The finding is of one of the rules, and its locations are sound. -/
structure Finding.Of (h : Host) (rules : List PatternRule) (f : Finding Int) : Prop where
  rule : ∃ r ∈ rules, f.rule = r.name
  index : f.Points
  locations : ∀ l ∈ f.locations, l.Sound h

theorem Finding.Of.mono {h : Host} {rules rules' : List PatternRule} {f : Finding Int} (hf : f.Of h rules)
    (hsub : ∀ r ∈ rules, r ∈ rules') : f.Of h rules' where
  rule := by
    obtain ⟨r, hr, hname⟩ := hf.rule
    exact ⟨r, hsub r hr, hname⟩
  index := hf.index
  locations := hf.locations

/-- A finding of selected rules is sound for the selection. -/
theorem Finding.Of.sound {h : Host} {rules : List PatternRule} {f : Finding Int} (hf : f.Of h rules)
    {selection : Selection} {engine : String}
    (hselected : ∀ r ∈ rules, ∃ x, selection.find? engine r.name = some x) : f.Sound h selection engine where
  rule := by
    obtain ⟨r, hr, hname⟩ := hf.rule
    rw [hname]
    exact hselected r hr
  index := hf.index
  locations := hf.locations

namespace PatternRule

variable {h : Host} {r : PatternRule} {rules : List PatternRule} {s : Scanned}

theorem finding_of (hs : s.Grounded h) {first last : Nat} (hle : first ≤ last) :
    (r.finding s first last).Of h [r] where
  rule := ⟨r, by simp, rfl⟩
  index := by
    show 0 ≤ (0 : Int) ∧ (0 : Int) < (1 : Int)
    omega
  locations l hl := by
    rw [finding, List.mem_singleton] at hl
    rw [hl]
    exact hs.location_sound hle

theorem spanOf_eq (hr : r.Reportable) (m : Pattern.Match) : r.spanOf m = .ok (m.span? r.group.toNat) := by
  have hgroup := hr.1
  have hgroups := hr.2
  unfold spanOf
  rw [if_neg (by omega)]

/-- The reported offsets of the matches: those of the reported group, where it took part and is not empty. -/
def spans (r : PatternRule) (ms : List Pattern.Match) : List (Nat × Nat) :=
  ms.filterMap fun m => (m.span? r.group.toNat).filter fun span => span.1 ≠ span.2

theorem mem_spans_iff {ms : List Pattern.Match} {span : Nat × Nat} :
    span ∈ r.spans ms ↔ ∃ m ∈ ms, m.span? r.group.toNat = some span ∧ span.1 ≠ span.2 := by
  simp [spans, Option.filter_eq_some_iff]

/-- `findingOf` in terms of the reported group, for a rule that has this group. -/
theorem findingOf_eq (hr : r.Reportable) (m : Pattern.Match) :
    r.findingOf s m = .ok (((m.span? r.group.toNat).filter fun span => span.1 ≠ span.2).map
      fun span => r.finding s span.1 span.2) := by
  unfold findingOf
  rw [spanOf_eq hr]
  cases hspan : m.span? r.group.toNat with
  | none => rfl
  | some span =>
    by_cases hempty : span.1 = span.2 <;> simp [hempty, Option.filter, bind, Except.bind, pure, Except.pure]

/-- The findings in a text are those at the reported offsets. -/
theorem findingsIn_eq (hr : r.Reportable) (s : Scanned) :
    r.findingsIn s = .ok ((r.spans (r.pattern.matchesIn s.subject)).map
      fun span => r.finding s span.1 span.2) := by
  have hmatches : (r.pattern.matchesIn s.subject).mapM (r.findingOf s) =
      .ok ((r.pattern.matchesIn s.subject).map fun m =>
        ((m.span? r.group.toNat).filter fun span => span.1 ≠ span.2).map
          fun span => r.finding s span.1 span.2) := by
    rw [funext fun m => findingOf_eq (s := s) hr m]
    exact List.mapM_pure
  unfold findingsIn
  rw [hmatches]
  simp only [bind, Except.bind, pure, Except.pure, spans, List.filterMap_map, List.map_filterMap]
  rfl

theorem findingsIn_isOk (hr : r.Reportable) (hs : s.Grounded h) :
    ∃ fs, r.findingsIn s = .ok fs ∧ ∀ f ∈ fs, f.Of h [r] := by
  refine ⟨_, findingsIn_eq hr s, ?_⟩
  intro f hf
  obtain ⟨span, hspan, rfl⟩ := List.mem_map.mp hf
  obtain ⟨m, hm, hspan, -⟩ := mem_spans_iff.mp hspan
  exact finding_of hs (Pattern.Match.span?_le (Pattern.first_le_last_of_mem hm) hspan)

theorem allFindingsIn_isOk (hrules : ∀ r ∈ rules, r.Reportable) (hs : s.Grounded h) :
    ∃ fs, allFindingsIn rules s = .ok fs ∧ ∀ f ∈ fs, f.Of h rules := by
  obtain ⟨found, hfound, hall⟩ := exists_mapM fun r hr => findingsIn_isOk (hrules r hr) hs
  refine ⟨found.flatten, ?_, ?_⟩
  · unfold allFindingsIn
    rw [hfound]
    rfl
  · intro f hf
    obtain ⟨fs, hfs, hf⟩ := List.mem_flatten.mp hf
    obtain ⟨r, hr, hof⟩ := exists_partner hall.flip hfs
    exact (hof f hf).mono (by simpa using hr)

/-- The findings of several rules are those of one rule after another. -/
theorem allFindingsIn_eq (hrules : ∀ r ∈ rules, r.Reportable) (s : Scanned) :
    allFindingsIn rules s = .ok (rules.flatMap fun r =>
      (r.spans (r.pattern.matchesIn s.subject)).map fun span => r.finding s span.1 span.2) := by
  have hall : List.Forall₂ (fun r fs => r.findingsIn s = .ok fs) rules (rules.map fun r =>
      (r.spans (r.pattern.matchesIn s.subject)).map fun span => r.finding s span.1 span.2) :=
    List.forall₂_map_right_iff.mpr (List.forall₂_same.mpr fun r hr => findingsIn_eq (hrules r hr) s)
  unfold allFindingsIn
  rw [mapM_eq_ok_iff.mpr hall]
  rfl

/-- `scanFile` on a file that can be read and decoded. -/
theorem scanFile_of_text {file : String} {text : List Char} (htext : h.readText file = .ok text) :
    scanFile h rules file =
      allFindingsIn (rules.filter (·.appliesTo file)) (.ofText file (Text.uniformNewlines text)) := by
  unfold scanFile
  simp only
  split
  · next hempty =>
    rw [List.isEmpty_iff.mp hempty]
    rfl
  · rw [htext]

/-- `scanFile` returns for every path without a null character. -/
theorem exists_scanFile {file : String} (hfile : '\x00' ∉ file.toList) (hrules : ∀ r ∈ rules, r.Reportable) :
    ∃ fs, scanFile h rules file = .ok fs := by
  rcases Host.readText_cases (h := h) hfile with ⟨text, htext, -⟩ | ⟨f, hf, hkind⟩
  · rw [scanFile_of_text htext]
    exact ⟨_, allFindingsIn_eq (fun r hr => hrules r (List.mem_of_mem_filter hr)) _⟩
  · refine ⟨[], ?_⟩
    unfold scanFile
    simp only [hf]
    split <;> rfl

/-- `scanFile` returns for every proper path, and its findings are sound. A file that cannot be read or
decoded has none. -/
theorem scanFile_isOk {file : String} (hfile : Path.Proper file) (hrules : ∀ r ∈ rules, r.Reportable) :
    ∃ fs, scanFile h rules file = .ok fs ∧ ∀ f ∈ fs, f.Of h rules := by
  unfold scanFile
  simp only
  split
  · exact ⟨[], rfl, by simp⟩
  · rcases Host.readText_cases (h := h) hfile.noZero with ⟨text, htext, hthere⟩ | ⟨f, hf, hkind⟩
    · have happlicable : ∀ r ∈ rules.filter (·.appliesTo file), r.Reportable :=
        fun r hr => hrules r (List.mem_of_mem_filter hr)
      obtain ⟨fs, hfs, hof⟩ := allFindingsIn_isOk happlicable
        (Scanned.grounded_ofText hfile.normal hthere (Text.uniformNewlines text))
      rw [htext]
      exact ⟨fs, hfs, fun f hf => (hof f hf).mono fun r hr => List.mem_of_mem_filter hr⟩
    · -- only a failure of the one kind that `hkind` rules out would end the scan
      rw [hf]
      exact ⟨[], by simp only, by simp⟩

end PatternRule

end Polyscan
