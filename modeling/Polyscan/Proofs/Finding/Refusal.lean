import Polyscan.Proofs.Finding.Sound
import Polyscan.Proofs.Items

/-!
Refused findings. The failure is a breach of the engine contract, unless the first failing check of the
finding cannot give a diagnostic: its path asks for the home folder of a user of an impossible name, or a
number in the diagnostic has too many digits to be written.
-/
namespace Polyscan

/-! ## Checks without a diagnostic -/

/-- The number has too many digits to be written. -/
def Unwritable (n : Int) : Prop := digitLimit < (Nat.toDigits 10 n.natAbs).length

/-- The first failing check of the location gives no diagnostic. -/
inductive Location.Untold (h : Host) (l : Location Int) : Prop
  | file (hfile : ∃ f, h.resolve l.file = .error f)
  | startLine (hfile : l.InFile h) (hlow : l.startLine < 1) (hlong : Unwritable l.startLine)
  | startColumn (hfile : l.InFile h) (hline : 1 ≤ l.startLine) (hlow : l.startColumn < 1)
      (hlong : Unwritable l.startColumn)
  | endLine {n : Int} (hfile : l.InFile h) (hline : 1 ≤ l.startLine) (hcolumn : 1 ≤ l.startColumn)
      (hend : l.endLine = some n) (hlow : n < l.startLine)
      (hlong : Unwritable n ∨ 1 ≤ n ∧ Unwritable l.startLine)
  | endColumn {n : Int} (hfile : l.InFile h) (hline : 1 ≤ l.startLine) (hcolumn : 1 ≤ l.startColumn)
      (hendLine : ∀ m, l.endLine = some m → l.startLine ≤ m) (hend : l.endColumn = some n)
      (hlow : n < 1 ∨ l.endLine = some l.startLine ∧ n < l.startColumn)
      (hlong : Unwritable n ∨ 1 ≤ n ∧ Unwritable l.startColumn)

/-- The first failing check of the finding gives no diagnostic. -/
def Finding.Untold (h : Host) (selection : Selection) (engine : String) (f : Finding Int) : Prop :=
  (∃ r, selection.find? engine f.rule = some r) ∧
    (¬ f.Points ∧ Unwritable f.primaryIndex ∨
      f.Points ∧ ∃ l, FirstBad (Location.Sound h) f.locations l ∧ l.Untold h)

/-- The first failing check of the first unsound finding gives no diagnostic. -/
def Finding.BatchUntold (h : Host) (selection : Selection) (engine : String)
    (fs : List (Finding Int)) : Prop :=
  ∃ f, FirstBad (Finding.Sound h selection engine) fs f ∧ f.Untold h selection engine

/-! ## Breaches of the contract -/

namespace Fault

/-- The failure is a breach of the contract, or there is no diagnostic. -/
def ContractUnless (p : Fault) (untold : Prop) : Prop :=
  untold ∧ p.kind = .value ∨ ¬ untold ∧ p.kind = .contract

theorem ContractUnless.congr {p : Fault} {u v : Prop} (h : p.ContractUnless u) (huv : u ↔ v) :
    p.ContractUnless v :=
  propext huv ▸ h

theorem contractUnless_contract {d : Diagnostic} {u : Prop} (hu : ¬ u) : (contract d).ContractUnless u :=
  .inr ⟨hu, rfl⟩

theorem contractUnless_numeral {deliver : String → Diagnostic} (n : Int) :
    (ofProblem (do pure (deliver (← numeral n)))).ContractUnless (Unwritable n) := by
  unfold numeral
  split
  · next hshort => exact .inr ⟨Nat.not_lt.mpr hshort, rfl⟩
  · next hlong => exact .inl ⟨Nat.lt_of_not_le hlong, rfl⟩

theorem contractUnless_numerals {deliver : String → String → Diagnostic} (m n : Int) :
    (ofProblem (do pure (deliver (← numeral m) (← numeral n)))).ContractUnless
      (Unwritable m ∨ Unwritable n) := by
  -- the first number is written first, so the second one matters only if the first can be written
  by_cases hm : Unwritable m
  · have hfail : ¬ (Nat.toDigits 10 m.natAbs).length ≤ digitLimit := Nat.not_le.mpr hm
    simp only [numeral, if_neg hfail]
    exact .inl ⟨.inl hm, rfl⟩
  · have hread : (Nat.toDigits 10 m.natAbs).length ≤ digitLimit := Nat.le_of_not_lt hm
    simp only [numeral, if_pos hread]
    exact (contractUnless_numeral n).congr (by simp [hm])

end Fault

/-! ## Locations -/

theorem Host.resolve_error {h : Host} {path : String} {f : Fault} (hf : h.resolve path = .error f) :
    f.kind = .value := by
  unfold resolve at hf
  split at hf
  · cases hf
    rfl
  · cases hf

namespace Location

variable {h : Host} {r : Reporter} {l : Location Int} {p : Fault}

theorem fileProblem?_contractUnless (hp : l.fileProblem? h r = some p) :
    ¬ l.InFile h ∧ p.ContractUnless (∃ f, h.resolve l.file = .error f) := by
  refine ⟨fun hfile => ?_, ?_⟩
  · rw [fileProblem?_eq_none_iff.mpr hfile] at hp
    cases hp
  unfold fileProblem? at hp
  cases hr : h.resolve l.file with
  | error f =>
    simp only [hr, Option.some.injEq] at hp
    subst hp
    exact .inl ⟨⟨_, rfl⟩, Host.resolve_error hr⟩
  | ok path =>
    simp only [hr] at hp
    split at hp
    · cases hp
      exact Fault.contractUnless_contract (by simp)
    · split at hp
      · cases hp
        exact Fault.contractUnless_contract (by simp)
      · cases hp

theorem coordinateProblem?_contractUnless {field : String} {n : Int} (hp : coordinateProblem? r field n = some p) :
    n < 1 ∧ p.ContractUnless (Unwritable n) := by
  unfold coordinateProblem? at hp
  split at hp
  · cases hp
  · next hn =>
    cases hp
    exact ⟨by simpa [Coordinate.isPositive, Coordinate.whole?] using hn, Fault.contractUnless_numeral n⟩

theorem endLineProblem?_contractUnless (hstart : 1 ≤ l.startLine) (hp : l.endLineProblem? r = some p) :
    ∃ n, l.endLine = some n ∧ n < l.startLine ∧
      p.ContractUnless (Unwritable n ∨ 1 ≤ n ∧ Unwritable l.startLine) := by
  obtain ⟨n, hend, hp⟩ := Option.bind_eq_some_iff.mp hp
  refine ⟨n, hend, ?_⟩
  rcases Option.or_eq_some_iff.mp hp with hp | ⟨hnone, hp⟩
  · obtain ⟨hlow, hemits⟩ := coordinateProblem?_contractUnless hp
    have hnot : ¬ 1 ≤ n := Int.not_le.mpr hlow
    exact ⟨Int.lt_of_lt_of_le hlow hstart, hemits.congr (by simp [hnot])⟩
  · have hpos : 1 ≤ n := coordinateProblem?_eq_none_iff.mp hnone
    split at hp
    · next hlow =>
      cases hp
      exact ⟨by simpa [Coordinate.isBefore, Coordinate.whole?] using hlow,
        (Fault.contractUnless_numerals n l.startLine).congr (by simp [hpos])⟩
    · cases hp

theorem endColumnProblem?_contractUnless (hp : l.endColumnProblem? r = some p) :
    ∃ n, l.endColumn = some n ∧ (n < 1 ∨ l.endLine = some l.startLine ∧ n < l.startColumn) ∧
      p.ContractUnless (Unwritable n ∨ 1 ≤ n ∧ Unwritable l.startColumn) := by
  obtain ⟨n, hend, hp⟩ := Option.bind_eq_some_iff.mp hp
  refine ⟨n, hend, ?_⟩
  rcases Option.or_eq_some_iff.mp hp with hp | ⟨hnone, hp⟩
  · obtain ⟨hlow, hemits⟩ := coordinateProblem?_contractUnless hp
    have hnot : ¬ 1 ≤ n := Int.not_le.mpr hlow
    exact ⟨.inl hlow, hemits.congr (by simp [hnot])⟩
  · have hpos : 1 ≤ n := coordinateProblem?_eq_none_iff.mp hnone
    split at hp
    · next hlow =>
      cases hp
      refine ⟨.inr ?_, (Fault.contractUnless_numerals n l.startColumn).congr (by simp [hpos])⟩
      rw [Bool.and_eq_true, Option.any_eq_true] at hlow
      obtain ⟨⟨m, hm, heq⟩, hbefore⟩ := hlow
      have hsame : m = l.startLine := by simpa [Coordinate.isEqual, Coordinate.whole?] using heq
      exact ⟨hsame ▸ hm, by simpa [Coordinate.isBefore, Coordinate.whole?] using hbefore⟩
    · cases hp

/-- A location fails by its first failing check. -/
theorem problem?_contractUnless (hp : l.problem? h r = some p) : p.ContractUnless (l.Untold h) := by
  -- the checks are taken in their order; cases of `Untold` about other checks contradict what was found
  rcases Option.or_eq_some_iff.mp hp with hp | ⟨hfile, hp⟩
  · obtain ⟨hnot, hemits⟩ := fileProblem?_contractUnless hp
    refine hemits.congr ⟨.file, fun hu => ?_⟩
    cases hu with
    | file hf => exact hf
    | _ => contradiction
  have hfile := fileProblem?_eq_none_iff.mp hfile
  have hresolved : ¬ ∃ f, h.resolve l.file = .error f := by
    intro hfails
    obtain ⟨f, hf⟩ := hfails
    obtain ⟨path, hpath, -⟩ := hfile
    rw [hf] at hpath
    cases hpath
  rcases Option.or_eq_some_iff.mp hp with hp | ⟨hline, hp⟩
  · obtain ⟨hlow, hemits⟩ := coordinateProblem?_contractUnless hp
    refine hemits.congr ⟨.startLine hfile hlow, fun hu => ?_⟩
    cases hu with
    | file hf => contradiction
    | startLine _ _ hlong => exact hlong
    | _ => omega
  have hline := coordinateProblem?_eq_none_iff.mp hline
  rcases Option.or_eq_some_iff.mp hp with hp | ⟨hcolumn, hp⟩
  · obtain ⟨hlow, hemits⟩ := coordinateProblem?_contractUnless hp
    refine hemits.congr ⟨.startColumn hfile hline hlow, fun hu => ?_⟩
    cases hu with
    | file hf => contradiction
    | startColumn _ _ _ hlong => exact hlong
    | _ => omega
  have hcolumn := coordinateProblem?_eq_none_iff.mp hcolumn
  rcases Option.or_eq_some_iff.mp hp with hp | ⟨hendLine, hp⟩
  · obtain ⟨n, hend, hlow, hemits⟩ := endLineProblem?_contractUnless hline hp
    refine hemits.congr ⟨.endLine hfile hline hcolumn hend hlow, fun hu => ?_⟩
    cases hu with
    | file hf => contradiction
    | startLine _ hlow' _ => omega
    | startColumn _ _ hlow' _ => omega
    | endLine _ _ _ hend' _ hlong =>
      cases hend.symm.trans hend'
      exact hlong
    | endColumn _ _ _ hall _ _ _ => exact absurd (hall n hend) (Int.not_le.mpr hlow)
  · have hendLine := (endLineProblem?_eq_none_iff hline).mp hendLine
    obtain ⟨n, hend, hlow, hemits⟩ := endColumnProblem?_contractUnless hp
    refine hemits.congr ⟨.endColumn hfile hline hcolumn hendLine hend hlow, fun hu => ?_⟩
    cases hu with
    | file hf => contradiction
    | startLine _ hlow' _ => omega
    | startColumn _ _ hlow' _ => omega
    | endLine _ _ _ hend' hlow' _ => exact absurd (hendLine _ hend') (Int.not_le.mpr hlow')
    | endColumn _ _ _ _ hend' _ hlong =>
      cases hend.symm.trans hend'
      exact hlong

end Location

/-! ## Findings -/

namespace Finding

variable {h : Host} {selection : Selection} {engine : String} {p : Fault}

theorem indexProblem?_contractUnless {f : Finding Int} (hp : f.indexProblem? engine = some p) :
    ¬ f.Points ∧ p.ContractUnless (Unwritable f.primaryIndex) := by
  refine ⟨fun hpoints => ?_, ?_⟩
  · rw [indexProblem?_eq_none_iff.mpr hpoints] at hp
    cases hp
  unfold indexProblem? at hp
  simp only at hp
  split at hp
  · cases hp
  · cases hp
    exact Fault.contractUnless_numeral f.primaryIndex

/-- A finding fails by its first failing check. -/
theorem problem?_contractUnless {f : Finding Int} (hp : f.problem? h selection engine = some p) :
    p.ContractUnless (f.Untold h selection engine) := by
  unfold Untold
  rcases Option.or_eq_some_iff.mp hp with hp | ⟨hrule, hp⟩
  · have hnot : ¬ ∃ r, selection.find? engine f.rule = some r := by
      intro hrule
      rw [ruleProblem?_eq_none_iff.mpr hrule] at hp
      cases hp
    unfold ruleProblem? at hp
    split at hp
    · cases hp
    · cases hp
      exact Fault.contractUnless_contract (by simp [hnot])
  have hrule := ruleProblem?_eq_none_iff.mp hrule
  rcases Option.or_eq_some_iff.mp hp with hp | ⟨hindex, hp⟩
  · obtain ⟨hnot, hemits⟩ := indexProblem?_contractUnless hp
    exact hemits.congr (by simp [hrule, hnot])
  have hindex := indexProblem?_eq_none_iff.mp hindex
  obtain ⟨l, hfirst, hl⟩ := FirstBad.of_findSome? (fun _ => Location.problem?_eq_none_iff) hp
  refine (Location.problem?_contractUnless hl).congr ⟨fun hu => ⟨hrule, .inr ⟨hindex, l, hfirst, hu⟩⟩, ?_⟩
  intro huntold
  rcases huntold with ⟨-, ⟨hnot, -⟩ | ⟨-, l', hfirst', hu⟩⟩
  · exact absurd hindex hnot
  · exact hfirst'.unique hfirst ▸ hu

/-- A list of findings fails by its first unsound finding. -/
theorem checkAll_contractUnless {fs : List (Finding Int)} (hp : checkAll h selection engine fs = .error p) :
    p.ContractUnless (BatchUntold h selection engine fs) := by
  unfold checkAll at hp
  cases hfound : fs.findSome? (problem? h selection engine) with
  | none => simp [hfound] at hp
  | some q =>
    simp only [hfound, Except.error.injEq] at hp
    subst hp
    obtain ⟨f, hfirst, hf⟩ := FirstBad.of_findSome? (fun _ => problem?_eq_none_iff) hfound
    refine (problem?_contractUnless hf).congr ⟨fun hu => ⟨f, hfirst, hu⟩, ?_⟩
    intro huntold
    obtain ⟨f', hfirst', hu⟩ := huntold
    exact hfirst'.unique hfirst ▸ hu

end Finding

end Polyscan
