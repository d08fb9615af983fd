import Polyscan.Finding.Check

/-! Sound findings, defined without the checks; and that the checks accept exactly these. -/
namespace Polyscan

/-- The location is in a regular file. -/
def Location.InFile (h : Host) (l : Location Int) : Prop :=
  ∃ path, h.resolve l.file = .ok path ∧ h.isFile path = true

/-- A place in an existing file: lines and columns count from one, and the end is not before the start. -/
structure Location.Sound (h : Host) (l : Location Int) : Prop where
  file : l.InFile h
  startLine : 1 ≤ l.startLine
  startColumn : 1 ≤ l.startColumn
  endLine : ∀ n, l.endLine = some n → l.startLine ≤ n
  endColumn : ∀ n, l.endColumn = some n →
    1 ≤ n ∧ (l.endLine = some l.startLine → l.startColumn ≤ n)

/-- The primary index is the index of a location. -/
def Finding.Points (f : Finding Int) : Prop := 0 ≤ f.primaryIndex ∧ f.primaryIndex < f.locations.length

/-- A finding for a selected rule, at sound locations of which one is the primary one. -/
structure Finding.Sound (h : Host) (selection : Selection) (engine : String) (f : Finding Int) :
    Prop where
  rule : ∃ r, selection.find? engine f.rule = some r
  index : f.Points
  locations : ∀ l ∈ f.locations, l.Sound h

theorem Host.exists_of_isFile {h : Host} {p : String} (hp : h.isFile p = true) :
    h.exists? p = true := by
  unfold Host.isFile at hp
  unfold Host.exists?
  cases hn : h.node? p with
  | none => simp [hn] at hp
  | some n => rfl

namespace Location

variable {h : Host} {r : Reporter} {l : Location Int}

theorem fileProblem?_eq_none_iff :
    l.fileProblem? h r = none ↔ l.InFile h := by
  unfold fileProblem? InFile
  cases hr : h.resolve l.file with
  | error f => simp
  | ok path =>
    cases hf : h.isFile path with
    | false => cases he : h.exists? path <;> simp [he, hf]
    | true => simp [Host.exists_of_isFile hf, hf]

theorem coordinateProblem?_eq_none_iff {field : String} {n : Int} :
    coordinateProblem? r field n = none ↔ 1 ≤ n := by
  simp [coordinateProblem?, Coordinate.isPositive, Coordinate.whole?]

theorem endLineProblem?_eq_none_iff (hstart : 1 ≤ l.startLine) :
    l.endLineProblem? r = none ↔ ∀ n, l.endLine = some n → l.startLine ≤ n := by
  unfold endLineProblem?
  cases hn : l.endLine with
  | none => simp
  | some n =>
    simp only [Option.bind_some, Option.or_eq_none_iff, coordinateProblem?_eq_none_iff,
      Coordinate.isBefore, Coordinate.whole?, Option.some.injEq]
    by_cases hlt : n < l.startLine
    · simp [hlt]
    · have hle : l.startLine ≤ n := by omega
      have hpos : 1 ≤ n := by omega
      simp [hlt, hle, hpos]

theorem endColumnProblem?_eq_none_iff :
    l.endColumnProblem? r = none ↔ ∀ n, l.endColumn = some n →
      1 ≤ n ∧ (l.endLine = some l.startLine → l.startColumn ≤ n) := by
  unfold endColumnProblem?
  cases hn : l.endColumn with
  | none => simp
  | some n =>
    cases he : l.endLine with
    | none => simp [coordinateProblem?_eq_none_iff]
    | some m =>
      by_cases hm : m = l.startLine <;>
        simp [coordinateProblem?_eq_none_iff, Coordinate.isEqual, Coordinate.isBefore,
          Coordinate.whole?, hm]

theorem problem?_eq_none_iff : l.problem? h r = none ↔ l.Sound h := by
  simp only [problem?, Option.or_eq_none_iff, fileProblem?_eq_none_iff,
    coordinateProblem?_eq_none_iff, endColumnProblem?_eq_none_iff]
  constructor
  · intro hsound
    obtain ⟨hfile, hline, hcolumn, hendLine, hendColumn⟩ := hsound
    exact ⟨hfile, hline, hcolumn, (endLineProblem?_eq_none_iff hline).mp hendLine, hendColumn⟩
  · intro hsound
    obtain ⟨hfile, hline, hcolumn, hendLine, hendColumn⟩ := hsound
    exact ⟨hfile, hline, hcolumn, (endLineProblem?_eq_none_iff hline).mpr hendLine, hendColumn⟩

end Location

namespace Finding

variable {h : Host} {selection : Selection} {engine : String} {f : Finding Int}

theorem ruleProblem?_eq_none_iff :
    f.ruleProblem? selection engine = none ↔ ∃ r, selection.find? engine f.rule = some r := by
  simp [ruleProblem?, Option.isSome_iff_exists]

theorem indexProblem?_eq_none_iff :
    f.indexProblem? engine = none ↔ f.Points := by
  simp only [indexProblem?, Points, Coordinate.whole?, Option.any_some, ite_eq_left_iff, reduceCtorEq,
    imp_false, Decidable.not_not, Bool.and_eq_true, decide_eq_true_eq, Int.le_sub_one_iff]

/-- The checks of a finding let pass what is sound, and nothing else. -/
theorem problem?_eq_none_iff :
    f.problem? h selection engine = none ↔ f.Sound h selection engine := by
  simp only [problem?, Option.or_eq_none_iff, ruleProblem?_eq_none_iff, indexProblem?_eq_none_iff,
    List.findSome?_eq_none_iff, Location.problem?_eq_none_iff]
  constructor
  · intro hsound
    obtain ⟨hrule, hindex, hlocations⟩ := hsound
    exact ⟨hrule, hindex, hlocations⟩
  · intro hsound
    obtain ⟨hrule, hindex, hlocations⟩ := hsound
    exact ⟨hrule, hindex, hlocations⟩

theorem checkAll_eq_ok_iff {fs : List (Finding Int)} :
    checkAll h selection engine fs = .ok () ↔ ∀ f ∈ fs, f.Sound h selection engine := by
  unfold checkAll
  cases hp : fs.findSome? (problem? h selection engine) with
  | none =>
    rw [List.findSome?_eq_none_iff] at hp
    simpa [problem?_eq_none_iff] using hp
  | some p =>
    obtain ⟨f, hf, hfp⟩ := List.exists_of_findSome?_eq_some hp
    simp only [reduceCtorEq, false_iff]
    intro hall
    rw [problem?_eq_none_iff.mpr (hall f hf)] at hfp
    cases hfp

end Finding

end Polyscan
