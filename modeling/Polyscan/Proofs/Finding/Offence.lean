import Polyscan.Proofs.Finding.Refusal
import Polyscan.Proofs.Host

/-!
The failure of `checkAll`. The checks of a finding are one list: its rule, its primary index, and then those
of one location after another. A list of findings is refused for the first check that the first unsound
finding does not pass, with the diagnostic of that check; what comes after that finding does not matter.
-/
namespace Polyscan

/-! ## Numbers in diagnostics -/

namespace Fault

theorem kind_of_numeral {n : Int} {f : Fault} (hf : numeral n = .error f) : f.kind = .value := by
  unfold numeral at hf
  split at hf
  · cases hf
  · cases hf
    rfl

/-- A diagnostic with a number is a breach of the contract only if the number can be written. -/
theorem exists_numeral {n : Int} {complaint : String → Except Fault Diagnostic} {p : Fault}
    (hp : ofProblem (do complaint (← numeral n)) = p) (hkind : p.kind = .contract) :
    ∃ text, numeral n = .ok text ∧ ofProblem (complaint text) = p := by
  cases htext : numeral n with
  | ok text =>
    rw [htext] at hp
    exact ⟨text, rfl, hp⟩
  | error f =>
    rw [htext] at hp
    have hf : f = p := hp
    rw [← hf, kind_of_numeral htext] at hkind
    cases hkind

end Fault

/-! ## Locations -/

namespace Location

/-- The checks of a location. -/
inductive Check
  | file
  | startLine
  | startColumn
  | endLine
  | endColumn

/-- The checks in the order in which they are made. -/
def checks : List Check := [.file, .startLine, .startColumn, .endLine, .endColumn]

/-- The location passes the check. -/
def Passes (h : Host) (l : Location Int) : Check → Prop
  | .file => l.InFile h
  | .startLine => 1 ≤ l.startLine
  | .startColumn => 1 ≤ l.startColumn
  | .endLine => ∀ n, l.endLine = some n → 1 ≤ n ∧ l.startLine ≤ n
  | .endColumn => ∀ n, l.endColumn = some n → 1 ≤ n ∧ (l.endLine = some l.startLine → l.startColumn ≤ n)

/-- The diagnostic of a check that the location does not pass. Numbers are in decimal notation. -/
inductive Complains (h : Host) (r : Reporter) (l : Location Int) : Check → Diagnostic → Prop
  | missing {path : String} (hpath : h.resolve l.file = .ok path) (hmissing : h.exists? path = false) :
      Complains h r l .file (.locationMissing r.engine r.rule path)
  | folder {path : String} (hpath : h.resolve l.file = .ok path) (hthere : h.exists? path = true)
      (hfolder : h.isFile path = false) : Complains h r l .file (.locationFolder r.engine r.rule path)
  | startLine {text : String} (hlow : l.startLine < 1) (htext : numeral l.startLine = .ok text) :
      Complains h r l .startLine (.coordinate r.engine r.rule "start_line" text)
  | startColumn {text : String} (hlow : l.startColumn < 1) (htext : numeral l.startColumn = .ok text) :
      Complains h r l .startColumn (.coordinate r.engine r.rule "start_column" text)
  | endLine {n : Int} {text : String} (hend : l.endLine = some n) (hlow : n < 1)
      (htext : numeral n = .ok text) :
      Complains h r l .endLine (.coordinate r.engine r.rule "end_line" text)
  | endLineBeforeStart {n : Int} {text start : String} (hend : l.endLine = some n) (hcounts : 1 ≤ n)
      (hlow : n < l.startLine) (htext : numeral n = .ok text) (hstart : numeral l.startLine = .ok start) :
      Complains h r l .endLine (.endLineBeforeStart r.engine r.rule text start)
  | endColumn {n : Int} {text : String} (hend : l.endColumn = some n) (hlow : n < 1)
      (htext : numeral n = .ok text) :
      Complains h r l .endColumn (.coordinate r.engine r.rule "end_column" text)
  | endColumnBeforeStart {n : Int} {text start : String} (hend : l.endColumn = some n) (hcounts : 1 ≤ n)
      (hline : l.endLine = some l.startLine) (hlow : n < l.startColumn) (htext : numeral n = .ok text)
      (hstart : numeral l.startColumn = .ok start) :
      Complains h r l .endColumn (.endColumnBeforeStart r.engine r.rule text start)

/-- The failure of a check of the location. -/
def checkProblem? (h : Host) (r : Reporter) (l : Location Int) : Check → Option Fault
  | .file => l.fileProblem? h r
  | .startLine => coordinateProblem? r "start_line" l.startLine
  | .startColumn => coordinateProblem? r "start_column" l.startColumn
  | .endLine => l.endLineProblem? r
  | .endColumn => l.endColumnProblem? r

variable {h : Host} {r : Reporter} {l : Location Int} {c : Check} {p : Fault}

theorem problem?_eq_findSome? : l.problem? h r = checks.findSome? (l.checkProblem? h r) := by
  simp only [checks, findSome?_cons_eq_or, List.findSome?_nil, Option.or_none]
  rfl

theorem checkProblem?_eq_none_iff : l.checkProblem? h r c = none ↔ l.Passes h c := by
  cases c with
  | file => exact fileProblem?_eq_none_iff
  | startLine => exact coordinateProblem?_eq_none_iff
  | startColumn => exact coordinateProblem?_eq_none_iff
  | endColumn => exact endColumnProblem?_eq_none_iff
  | endLine =>
    unfold checkProblem? endLineProblem? Passes
    cases l.endLine with
    | none => simp
    | some n => simp [coordinateProblem?_eq_none_iff, Coordinate.isBefore, Coordinate.whole?]

theorem contract_of_coordinateProblem? {field : String} {n : Int} (hp : coordinateProblem? r field n = some p)
    (hkind : p.kind = .contract) :
    n < 1 ∧ ∃ text, numeral n = .ok text ∧ p = .contract (.coordinate r.engine r.rule field text) := by
  refine ⟨(coordinateProblem?_contractUnless hp).1, ?_⟩
  unfold coordinateProblem? at hp
  split at hp
  · cases hp
  · obtain ⟨text, htext, hp⟩ := Fault.exists_numeral (Option.some.inj hp) hkind
    exact ⟨text, htext, hp.symm⟩

/-- A check that fails with a breach of the contract gives its diagnostic. -/
theorem complains_of_contract (hp : l.checkProblem? h r c = some p) (hkind : p.kind = .contract) :
    ∃ d, l.Complains h r c d ∧ p = .contract d := by
  cases c with
  | file =>
    unfold checkProblem? fileProblem? at hp
    cases hpath : h.resolve l.file with
    | error f =>
      simp only [hpath, Option.some.injEq] at hp
      rw [← hp, Host.resolve_error hpath] at hkind
      cases hkind
    | ok path =>
      simp only [hpath] at hp
      split at hp
      · next hmissing =>
        cases hp
        exact ⟨_, .missing hpath (by simpa using hmissing), rfl⟩
      · next hthere =>
        split at hp
        · next hfolder =>
          cases hp
          exact ⟨_, .folder hpath (by simpa using hthere) (by simpa using hfolder), rfl⟩
        · cases hp
  | startLine =>
    obtain ⟨hlow, text, htext, hp⟩ := contract_of_coordinateProblem? hp hkind
    exact ⟨_, .startLine hlow htext, hp⟩
  | startColumn =>
    obtain ⟨hlow, text, htext, hp⟩ := contract_of_coordinateProblem? hp hkind
    exact ⟨_, .startColumn hlow htext, hp⟩
  | endLine =>
    obtain ⟨n, hend, hp⟩ := Option.bind_eq_some_iff.mp hp
    rcases Option.or_eq_some_iff.mp hp with hp | ⟨hnone, hp⟩
    · obtain ⟨hlow, text, htext, hp⟩ := contract_of_coordinateProblem? hp hkind
      exact ⟨_, .endLine hend hlow htext, hp⟩
    · split at hp
      · next hbefore =>
        obtain ⟨text, htext, hp⟩ := Fault.exists_numeral (Option.some.inj hp) hkind
        obtain ⟨start, hstart, hp⟩ := Fault.exists_numeral hp hkind
        have hlow : n < l.startLine := by simpa [Coordinate.isBefore, Coordinate.whole?] using hbefore
        exact ⟨_, .endLineBeforeStart hend (coordinateProblem?_eq_none_iff.mp hnone) hlow htext hstart,
          hp.symm⟩
      · cases hp
  | endColumn =>
    obtain ⟨n, hend, hp⟩ := Option.bind_eq_some_iff.mp hp
    rcases Option.or_eq_some_iff.mp hp with hp | ⟨hnone, hp⟩
    · obtain ⟨hlow, text, htext, hp⟩ := contract_of_coordinateProblem? hp hkind
      exact ⟨_, .endColumn hend hlow htext, hp⟩
    · split at hp
      · next hbefore =>
        obtain ⟨text, htext, hp⟩ := Fault.exists_numeral (Option.some.inj hp) hkind
        obtain ⟨start, hstart, hp⟩ := Fault.exists_numeral hp hkind
        rw [Bool.and_eq_true, Option.any_eq_true] at hbefore
        obtain ⟨⟨m, hm, hsame⟩, hbefore⟩ := hbefore
        have hline : m = l.startLine := by simpa [Coordinate.isEqual, Coordinate.whole?] using hsame
        have hlow : n < l.startColumn := by simpa [Coordinate.isBefore, Coordinate.whole?] using hbefore
        exact ⟨_, .endColumnBeforeStart hend (coordinateProblem?_eq_none_iff.mp hnone) (hline ▸ hm) hlow htext
          hstart, hp.symm⟩
      · cases hp

end Location

/-! ## Findings -/

namespace Finding

/-- The checks of a finding. -/
inductive Check
  | rule
  | index
  | location (l : Location Int) (c : Location.Check)

/-- The checks in the order in which they are made. -/
def checks (f : Finding Int) : List Check :=
  .rule :: .index :: f.locations.flatMap fun l => Location.checks.map (.location l)

/-- The finding passes the check. -/
def Passes (h : Host) (selection : Selection) (engine : String) (f : Finding Int) : Check → Prop
  | .rule => ∃ r, selection.find? engine f.rule = some r
  | .index => f.Points
  | .location l c => l.Passes h c

/-- The diagnostic of a check that the finding does not pass. -/
inductive Complains (h : Host) (engine : String) (f : Finding Int) : Check → Diagnostic → Prop
  | rule : Complains h engine f .rule (.unselectedRule engine f.rule)
  | index {text : String} (htext : numeral f.primaryIndex = .ok text) :
      Complains h engine f .index (.primaryIndex engine f.rule text (f.locations.length - 1))
  | location {l : Location Int} {c : Location.Check} {d : Diagnostic}
      (hd : l.Complains h ⟨engine, f.rule⟩ c d) : Complains h engine f (.location l c) d

/-- The failure of a check of the finding. -/
def checkProblem? (h : Host) (selection : Selection) (engine : String) (f : Finding Int) :
    Check → Option Fault
  | .rule => f.ruleProblem? selection engine
  | .index => f.indexProblem? engine
  | .location l c => l.checkProblem? h ⟨engine, f.rule⟩ c

section

variable {h : Host} {selection : Selection} {engine : String} {f : Finding Int} {c : Check} {p : Fault}

theorem problem?_eq_findSome? :
    f.problem? h selection engine = f.checks.findSome? (f.checkProblem? h selection engine) := by
  unfold problem? checks
  rw [findSome?_cons_eq_or, findSome?_cons_eq_or, findSome?_flatMap]
  simp only [List.findSome?_map, Function.comp_def, checkProblem?, ← Location.problem?_eq_findSome?]

theorem checkProblem?_eq_none_iff :
    f.checkProblem? h selection engine c = none ↔ f.Passes h selection engine c := by
  cases c with
  | rule => exact ruleProblem?_eq_none_iff
  | index => exact indexProblem?_eq_none_iff
  | location l c => exact Location.checkProblem?_eq_none_iff

/-- A check that fails with a breach of the contract gives its diagnostic. -/
theorem complains_of_contract (hp : f.checkProblem? h selection engine c = some p)
    (hkind : p.kind = .contract) : ∃ d, f.Complains h engine c d ∧ p = .contract d := by
  cases c with
  | rule =>
    have hp : f.ruleProblem? selection engine = some p := hp
    unfold ruleProblem? at hp
    split at hp
    · cases hp
    · cases hp
      exact ⟨_, .rule, rfl⟩
  | index =>
    have hp : f.indexProblem? engine = some p := hp
    unfold indexProblem? at hp
    simp only at hp
    split at hp
    · cases hp
    · obtain ⟨text, htext, hp⟩ := Fault.exists_numeral (Option.some.inj hp) hkind
      exact ⟨_, .index htext, hp.symm⟩
  | location l c =>
    obtain ⟨d, hd, hp⟩ := Location.complains_of_contract hp hkind
    exact ⟨d, .location hd, hp⟩

/-- The failure of a finding is that of the first check that it does not pass. -/
theorem exists_firstBad_check (hp : f.problem? h selection engine = some p) :
    ∃ c, FirstBad (f.Passes h selection engine) f.checks c ∧
      f.checkProblem? h selection engine c = some p := by
  rw [problem?_eq_findSome?] at hp
  exact FirstBad.of_findSome? (fun _ => checkProblem?_eq_none_iff) hp

end

/-! ## Batches -/

/-- The outcome of a check of findings: it passes if all of them are sound, and else it fails with a breach of
the contract, for the first check that the first unsound finding does not pass. -/
structure Judged (h : Host) (selection : Selection) (engine : String) (fs : List (Finding Int))
    (outcome : Except Fault Unit) : Prop where
  passes : outcome = .ok () ↔ ∀ f ∈ fs, f.Sound h selection engine
  refuses : ∀ f c, FirstBad (Sound h selection engine) fs f →
    FirstBad (f.Passes h selection engine) f.checks c →
      ∃ d, f.Complains h engine c d ∧ outcome = .error (.contract d)

variable {h : Host} {selection : Selection} {engine : String} {fs : List (Finding Int)} {p : Fault}

theorem exists_firstBad_finding (hp : checkAll h selection engine fs = .error p) :
    ∃ f, FirstBad (Sound h selection engine) fs f ∧ f.problem? h selection engine = some p := by
  unfold checkAll at hp
  cases hfound : fs.findSome? (problem? h selection engine) with
  | none => simp [hfound] at hp
  | some q =>
    simp only [hfound, Except.error.injEq] at hp
    rw [← hp]
    exact FirstBad.of_findSome? (fun _ => problem?_eq_none_iff) hfound

theorem judged_of_reported (hcomplaint : ¬ BatchUntold h selection engine fs) :
    Judged h selection engine fs (checkAll h selection engine fs) where
  passes := checkAll_eq_ok_iff
  refuses := by
    intro f c hfirst hcheck
    cases houtcome : checkAll h selection engine fs with
    | ok u =>
      obtain ⟨before, after, hsplit, -, hbad⟩ := hfirst
      exact absurd (checkAll_eq_ok_iff.mp houtcome f (by simp [hsplit])) hbad
    | error p =>
      have hkind : p.kind = .contract := by
        rcases checkAll_contractUnless houtcome with ⟨huntold, -⟩ | ⟨-, hkind⟩
        · exact absurd huntold hcomplaint
        · exact hkind
      obtain ⟨f', hfirst', hp⟩ := exists_firstBad_finding houtcome
      rw [hfirst'.unique hfirst] at hp
      obtain ⟨c', hcheck', hp⟩ := exists_firstBad_check hp
      rw [hcheck'.unique hcheck] at hp
      obtain ⟨d, hd, hp⟩ := complains_of_contract hp hkind
      exact ⟨d, hd, congrArg Except.error hp⟩

theorem BatchUntold.not_judged (huntold : BatchUntold h selection engine fs) :
    ¬ Judged h selection engine fs (checkAll h selection engine fs) := by
  intro hjudged
  cases houtcome : checkAll h selection engine fs with
  | ok u =>
    obtain ⟨f, ⟨before, after, hsplit, -, hbad⟩, -⟩ := huntold
    exact hbad (checkAll_eq_ok_iff.mp houtcome f (by simp [hsplit]))
  | error p =>
    obtain ⟨f, hfirst, hp⟩ := exists_firstBad_finding houtcome
    obtain ⟨c, hcheck, -⟩ := exists_firstBad_check hp
    obtain ⟨d, -, hd⟩ := hjudged.refuses f c hfirst hcheck
    rcases checkAll_contractUnless houtcome with ⟨-, hkind⟩ | ⟨hcomplaint, -⟩
    · rw [houtcome] at hd
      cases hd
      cases hkind
    · exact hcomplaint huntold

/-- What comes after an unsound finding does not matter. -/
theorem checkAll_append_of_unsound {before : List (Finding Int)} {f : Finding Int}
    (hbad : ¬ f.Sound h selection engine) (after : List (Finding Int)) :
    checkAll h selection engine (before ++ f :: after) = checkAll h selection engine (before ++ [f]) := by
  have hproblem : f.problem? h selection engine ≠ none := fun hnone => hbad (problem?_eq_none_iff.mp hnone)
  obtain ⟨p, hp⟩ := Option.ne_none_iff_exists'.mp hproblem
  unfold checkAll
  rw [List.findSome?_append, List.findSome?_append, findSome?_cons_eq_or, findSome?_cons_eq_or, hp]
  rfl

/-- `checkAll` on a list of findings is as `Judged` says, if and only if the first failing check of the first
unsound finding is not `BatchUntold`: its file can be looked up, and its numbers can be written. Whatever
comes after an unsound finding does not matter. -/
theorem checkAll_judges (h : Host) (selection : Selection) (engine : String) :
    (∀ fs, Judged h selection engine fs (checkAll h selection engine fs) ↔
        ¬ BatchUntold h selection engine fs) ∧
      ∀ before f after, ¬ f.Sound h selection engine →
        checkAll h selection engine (before ++ f :: after) = checkAll h selection engine (before ++ [f]) := by
  refine ⟨fun fs => ⟨fun hjudged huntold => huntold.not_judged hjudged, judged_of_reported⟩, ?_⟩
  intro before f after hbad
  exact checkAll_append_of_unsound hbad after

/-- A finding at a place in a file. -/
def tabAt (l : Location Int) : Finding Int :=
  { rule := "Tab", message := "A tab.", locations := [l], primaryIndex := 0, resourceUrls := [] }

/-- One rule of one engine. -/
def tabSelection : Selection := .ofList [⟨"probe", { name := "Tab", severity := .low }⟩]

/-- The end column is before the start column on one line. The later finding, in a file that cannot be looked
up, is not checked. -/
theorem checkAll_judges_backwards :
    ¬ (tabAt ⟨"/main.py", 1, 3, some 1, some 2⟩).Sound (.withMain []) tabSelection "probe" ∧
      checkAll (.withMain []) tabSelection "probe"
          ([tabAt ⟨"/main.py", 1, 1, none, some 1⟩] ++
            tabAt ⟨"/main.py", 1, 3, some 1, some 2⟩ :: [tabAt ⟨"~a\x00b", 0, 0, none, none⟩]) =
        .error (.contract (.endColumnBeforeStart "probe" "Tab" "2" "3")) := by
  have hbad : ¬ (tabAt ⟨"/main.py", 1, 3, some 1, some 2⟩).Sound (.withMain []) tabSelection "probe" := by
    intro hsound
    have hcolumn := (hsound.locations _ List.mem_cons_self).endColumn 2 rfl
    exact absurd (hcolumn.2 rfl) (by decide)
  refine ⟨hbad, ?_⟩
  rw [(checkAll_judges (.withMain []) tabSelection "probe").2 _ _ _ hbad]
  rfl

/-- A location in a file that cannot be looked up. -/
def nowhere : Location Int := ⟨"~a\x00b", 1, 1, none, none⟩

/-- A finding in a file that cannot be looked up is refused with a failure that is no breach of the contract. -/
theorem checkAll_breaks_off :
    checkAll (.withMain []) tabSelection "probe" [tabAt nowhere] = .error Host.nullByte ∧
      ¬ Judged (.withMain []) tabSelection "probe" [tabAt nowhere]
        (checkAll (.withMain []) tabSelection "probe" [tabAt nowhere]) := by
  have hfails : (Host.withMain []).resolve nowhere.file = .error Host.nullByte := rfl
  have hbad : ¬ nowhere.Sound (.withMain []) := by
    rintro ⟨⟨path, hpath, -⟩, -, -, -, -⟩
    rw [hfails] at hpath
    cases hpath
  have hpoints : (tabAt nowhere).Points := ⟨by decide, by decide⟩
  have huntold : BatchUntold (.withMain []) tabSelection "probe" [tabAt nowhere] := by
    refine ⟨tabAt nowhere, ⟨[], [], rfl, by simp, fun hsound => ?_⟩, ⟨_, rfl⟩, .inr ⟨hpoints, nowhere, ?_, ?_⟩⟩
    · exact hbad (hsound.locations _ List.mem_cons_self)
    · exact ⟨[], [], rfl, by simp, hbad⟩
    · exact .file ⟨_, hfails⟩
  exact ⟨rfl, huntold.not_judged⟩

end Finding

end Polyscan
