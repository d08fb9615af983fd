import Mathlib.Data.Nat.Log
import Polyscan.Proofs.Text.Row

/-!
`Text.position` for every offset of a text. The search is a bisection on the line starts (`Halves`), which
ends after at most logarithmically many steps and stays within the array. The line is one more than the number
of newlines in front of the offset, the column counts from behind the last of them, and line start and column
recover the offset.
-/
namespace Polyscan.Text

variable {s t : List Char} {m o : Nat}

/-! ## Halvings -/

/-- After `n` steps the search among the lines `lo` to `hi` is at the line `k`, and every array access was in
range. -/
inductive Halves (starts : Array Nat) (offset : Int) : Nat → Nat → Nat → Nat → Prop where
  | found {k : Nat} (hk : k < starts.size) : Halves starts offset 0 k k k
  | upper {n lo hi mid k : Nat} (hlt : lo < hi) (hmid : mid = (lo + hi + 1) / 2) (hsize : mid < starts.size)
      (hstart : (starts[mid] : Int) ≤ offset) (hrest : Halves starts offset n mid hi k) :
      Halves starts offset (n + 1) lo hi k
  | lower {n lo hi mid k : Nat} (hlt : lo < hi) (hmid : mid = (lo + hi + 1) / 2) (hsize : mid < starts.size)
      (hstart : offset < (starts[mid] : Int)) (hrest : Halves starts offset n lo (mid - 1) k) :
      Halves starts offset (n + 1) lo hi k

theorem Halves.lt_size {starts : Array Nat} {offset : Int} {n lo hi k : Nat}
    (h : Halves starts offset n lo hi k) : k < starts.size := by
  induction h with
  | found hk => exact hk
  | upper _ _ _ _ _ ih => exact ih
  | lower _ _ _ _ _ ih => exact ih

/-- A step of the search leaves at most half of the lines, rounded up. -/
theorem succ_le_clog {n count left : Nat} (hcount : 2 ≤ count) (hleft : left ≤ (count + 1) / 2)
    (hn : n ≤ Nat.clog 2 left) : n + 1 ≤ Nat.clog 2 count := by
  rw [Nat.clog_of_two_le (Nat.le_refl 2) hcount]
  exact Nat.succ_le_succ (hn.trans (Nat.clog_mono_right 2 hleft))

/-- The search ends within the logarithm of the number of lines. -/
theorem halves_lineIndex {starts : Array Nat} (offset : Int) {lo hi : Nat} (hle : lo ≤ hi)
    (hsize : hi < starts.size) :
    ∃ n ≤ Nat.clog 2 (hi + 1 - lo), Halves starts offset n lo hi (lineIndex starts offset lo hi) := by
  fun_induction lineIndex starts offset lo hi with
  | case1 lo hi hlt mid hmid ih =>
    have hread : mid < starts.size := by omega
    obtain ⟨n, hn, hrest⟩ := ih (by omega) hsize
    rw [Array.getD_eq_getD_getElem?, Array.getElem?_eq_getElem hread] at hmid
    exact ⟨n + 1, succ_le_clog (by omega) (by omega) hn, .upper hlt rfl hread hmid hrest⟩
  | case2 lo hi hlt mid hmid ih =>
    have hread : mid < starts.size := by omega
    obtain ⟨n, hn, hrest⟩ := ih (by omega) (by omega)
    rw [Array.getD_eq_getD_getElem?, Array.getElem?_eq_getElem hread] at hmid
    exact ⟨n + 1, succ_le_clog (by omega) (by omega) hn, .lower hlt rfl hread (Int.not_le.mp hmid) hrest⟩
  | case3 lo hi hlt =>
    obtain rfl : lo = hi := by omega
    exact ⟨0, Nat.zero_le _, .found hsize⟩

/-! ## What newlines make of an offset -/

theorem line_positionAfter (s : List Char) : (positionAfter s).line = 1 + s.count '\n' := by
  induction s using List.reverseRecOn with
  | nil => rfl
  | append_singleton s c ih =>
    rw [positionAfter_snoc, advance, List.count_append]
    by_cases hc : c = '\n'
    · rw [if_pos hc, hc, ih]
      simp [Nat.add_assoc]
    · rw [if_neg hc, ih]
      simp [hc]

theorem column_of_notMem (hs : '\n' ∉ s) : (positionAfter s).column = 1 + s.length := by
  have hline : LastLine s 0 s := ⟨[], pieces_of_not_mem hs, rfl⟩
  rw [hline.positionAfter]
  dsimp only
  omega

theorem column_behind_newline (s : List Char) (ht : '\n' ∉ t) :
    (positionAfter (s ++ '\n' :: t)).column = 1 + t.length := by
  obtain ⟨n, line, hline⟩ := exists_lastLine s
  have hnext := hline.newline.append ht
  rw [List.append_assoc, List.singleton_append, List.nil_append] at hnext
  rw [hnext.positionAfter]
  dsimp only
  omega

theorem position_eq_positionAfter (ho : o ≤ s.length) :
    position (lineStarts s) o = positionAfter (s.take o) := by
  have hlookup := position_lineStarts (s.take o) (s.drop o)
  rwa [List.take_append_drop, List.length_take_of_le ho] at hlookup

/-- `position` is strictly increasing. -/
theorem before_of_lt (hmo : m < o) (ho : o ≤ s.length) :
    (position (lineStarts s) m).Before (position (lineStarts s) o) := by
  rw [position_eq_positionAfter (by omega), position_eq_positionAfter ho]
  have hsplit : s.take o = s.take m ++ (s.take o).drop m := by
    have hparts := List.take_append_drop m (s.take o)
    rw [List.take_take, Nat.min_eq_left (Nat.le_of_lt hmo)] at hparts
    exact hparts.symm
  have hbetween : (s.take o).drop m ≠ [] := by
    intro hnil
    have hlength := congrArg List.length hnil
    rw [List.length_drop, List.length_take_of_le ho, List.length_nil] at hlength
    omega
  rw [hsplit, positionAfter, positionAfter, List.foldl_append]
  exact before_foldl_advance _ hbetween

/-! ## Places of all offsets -/

/-- The positions of all offsets of a text. -/
structure FindsPlaces (s : List Char) : Prop where
  /-- The bisection ends, and its accesses are in range. -/
  search : ∀ o ≤ s.length, ∃ n ≤ Nat.clog 2 (lineStarts s).size, ∃ k,
    Halves (lineStarts s) o n 0 ((lineStarts s).size - 1) k ∧ (position (lineStarts s) o).line = k + 1
  line : ∀ o ≤ s.length, (position (lineStarts s) o).line = 1 + (s.take o).count '\n'
  /-- In the first line the column is the offset plus one. -/
  first : ∀ o ≤ s.length, '\n' ∉ s.take o → (position (lineStarts s) o).column = 1 + o
  /-- In any other line the column counts from behind the last newline. -/
  behind : ∀ j o, j < o → o ≤ s.length → s[j]? = some '\n' → '\n' ∉ (s.take o).drop (j + 1) →
    (position (lineStarts s) o).column = 1 + (o - (j + 1) : Nat)
  increases : ∀ m o, m < o → o ≤ s.length → (position (lineStarts s) m).Before (position (lineStarts s) o)
  injective : ∀ m ≤ s.length, ∀ o ≤ s.length, position (lineStarts s) m = position (lineStarts s) o → m = o
  /-- The line start and the column recover the offset. -/
  recovers : ∀ o ≤ s.length, ∃ start,
    (lineStarts s)[(position (lineStarts s) o).line - 1]? = some start ∧
      (start : Int) + (position (lineStarts s) o).column - 1 = o

/-- `position` of every offset of every text, the end included. -/
theorem position_findsPlaces (s : List Char) : FindsPlaces s := by
  have hsize : 0 < (lineStarts s).size := Nat.succ_pos _
  have hsearch : ∀ o : Nat, ∃ n ≤ Nat.clog 2 (lineStarts s).size,
      Halves (lineStarts s) o n 0 ((lineStarts s).size - 1)
        (lineIndex (lineStarts s) o 0 ((lineStarts s).size - 1)) := by
    intro o
    have hhalves := @halves_lineIndex (lineStarts s) o _ _ (Nat.zero_le _) (Nat.sub_one_lt_of_lt hsize)
    rwa [Nat.sub_zero, Nat.sub_add_cancel hsize] at hhalves
  constructor
  case search =>
    intro o _
    obtain ⟨n, hn, hhalves⟩ := hsearch o
    exact ⟨n, hn, _, hhalves, rfl⟩
  case line =>
    intro o ho
    rw [position_eq_positionAfter ho, line_positionAfter]
  case first =>
    intro o ho hfree
    rw [position_eq_positionAfter ho, column_of_notMem hfree, List.length_take_of_le ho]
  case behind =>
    intro j o hjo ho hnewline hfree
    have hj : j < (s.take o).length := by rwa [List.length_take_of_le ho]
    have hread : (s.take o)[j] = '\n' := by
      rw [List.getElem_take]
      exact (List.getElem?_eq_some_iff.mp hnewline).2
    have hparts : s.take o = (s.take o).take j ++ '\n' :: (s.take o).drop (j + 1) := by
      rw [← hread, ← List.drop_eq_getElem_cons hj, List.take_append_drop]
    rw [position_eq_positionAfter ho, hparts, column_behind_newline _ hfree, List.length_drop,
      List.length_take_of_le ho]
  case increases => exact fun m o hmo ho => before_of_lt hmo ho
  case injective =>
    intro m hm o ho hsame
    by_contra hne
    rcases Nat.lt_or_gt_of_ne hne with hlt | hlt
    · have hbefore := before_of_lt hlt ho
      rw [hsame] at hbefore
      exact hbefore.asymm hbefore
    · have hbefore := before_of_lt hlt hm
      rw [hsame] at hbefore
      exact hbefore.asymm hbefore
  case recovers =>
    intro o _
    obtain ⟨n, -, hhalves⟩ := hsearch o
    have hread := hhalves.lt_size
    refine ⟨_, Array.getElem?_eq_getElem hread, ?_⟩
    simp only [position, Array.getD_eq_getD_getElem?, Array.getElem?_eq_getElem hread, Option.getD_some]
    omega

example : position (lineStarts "a\n\nbc".toList) 3 = ⟨3, 1⟩ ∧ position (lineStarts []) 0 = ⟨1, 1⟩ := by
  decide +kernel

end Polyscan.Text
