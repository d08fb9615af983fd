import Mathlib.Data.List.Basic
import Mathlib.Data.List.GetD
import Mathlib.Data.List.Induction
import Polyscan.Text.Line

/-!
Positions in a text. The bisection of the line starts gives the line and column that counting character by
character gives, and a part of the text is recovered from the positions of its ends.
-/
namespace Polyscan.Text

/-! ## Where lines begin -/

theorem startsFrom_append (offset : Nat) (s t : List Char) :
    startsFrom offset (s ++ t) = startsFrom offset s ++ startsFrom (offset + s.length) t := by
  induction s generalizing offset with
  | nil => rfl
  | cons c rest ih =>
    have hoffset : offset + 1 + rest.length = offset + (c :: rest).length := by
      rw [List.length_cons]
      omega
    rw [List.cons_append, startsFrom, startsFrom, ih, hoffset]
    split <;> rfl

theorem bounds_of_mem_startsFrom {offset n : Nat} {s : List Char} (h : n ∈ startsFrom offset s) :
    offset < n ∧ n ≤ offset + s.length := by
  induction s generalizing offset with
  | nil => cases h
  | cons c rest ih =>
    have hrest : n ∈ startsFrom (offset + 1) rest → offset < n ∧ n ≤ offset + (c :: rest).length := by
      intro hmem
      have hbounds := ih hmem
      rw [List.length_cons]
      omega
    unfold startsFrom at h
    split at h
    · rcases List.mem_cons.mp h with rfl | h
      · rw [List.length_cons]
        omega
      · exact hrest h
    · exact hrest h

/-- The offset at which the last line of a text begins. -/
def lastStart (s : List Char) : Nat := (startsFrom 0 s).getLastD 0

theorem positionAfter_snoc (s : List Char) (c : Char) :
    positionAfter (s ++ [c]) = advance (positionAfter s) c :=
  List.foldl_append

/-- The place after a text is in its last line, as far behind the beginning of that line as the text goes. -/
theorem positionAfter_eq (s : List Char) :
    positionAfter s = ⟨(startsFrom 0 s).length + 1, (s.length : Int) - (lastStart s : Int) + 1⟩ := by
  induction s using List.reverseRecOn with
  | nil => rfl
  | append_singleton s c ih =>
    have hstarts : startsFrom 0 (s ++ [c]) =
        startsFrom 0 s ++ if c = '\n' then [s.length + 1] else [] := by
      rw [startsFrom_append, Nat.zero_add]
      rfl
    rw [positionAfter_snoc, ih, advance]
    by_cases hc : c = '\n'
    · rw [if_pos hc] at hstarts ⊢
      simp [lastStart, hstarts]
    · rw [if_neg hc, List.append_nil] at hstarts
      rw [if_neg hc, lastStart, lastStart, hstarts, List.length_append, List.length_singleton]
      simp only [Position.mk.injEq, true_and]
      omega

/-! ## The search for a line -/

/-- The search ends with the last line that begins at the offset or before it. -/
theorem lineIndex_eq {starts : Array Nat} {offset : Int} {lo hi k : Nat} (hlo : lo ≤ k) (hhi : k ≤ hi)
    (hbefore : ∀ j, j ≤ k → (starts.getD j 0 : Int) ≤ offset)
    (hafter : ∀ j, k < j → j ≤ hi → offset < (starts.getD j 0 : Int)) :
    lineIndex starts offset lo hi = k := by
  fun_induction lineIndex starts offset lo hi with
  | case1 lo hi hlt mid hmid ih =>
    -- the middle begins in time, so the line sought is not before it
    refine ih ?_ hhi hafter
    by_contra hmk
    have hlate := hafter mid (Nat.lt_of_not_le hmk) (by omega)
    omega
  | case2 lo hi hlt mid hmid ih =>
    -- the middle begins too late, so the line sought is before it
    have hkm : k < mid := by
      by_contra hmk
      exact hmid (hbefore mid (Nat.le_of_not_lt hmk))
    exact ih hlo (by omega) fun j hj hjm => hafter j hj (by omega)
  | case3 lo hi hlt => omega

theorem getD_lineStarts (s : List Char) (j : Nat) :
    (lineStarts s).getD j 0 = (0 :: startsFrom 0 s).getD j 0 := by
  simp [lineStarts, Array.getD_eq_getD_getElem?]

/-- The lines that begin in the first part of a text begin at the same offsets in the whole. -/
theorem getD_lineStarts_append {s t : List Char} {j : Nat} (hj : j ≤ (startsFrom 0 s).length) :
    (lineStarts (s ++ t)).getD j 0 = (0 :: startsFrom 0 s).getD j 0 := by
  rw [getD_lineStarts, startsFrom_append, ← List.cons_append, List.getD_append _ _ _ _ (Nat.lt_succ_of_le hj)]

theorem getD_le_of_le {s : List Char} {j : Nat} (hj : j ≤ (startsFrom 0 s).length) :
    (0 :: startsFrom 0 s).getD j 0 ≤ s.length := by
  have hlength : j < (0 :: startsFrom 0 s).length := Nat.lt_succ_of_le hj
  rw [List.getD_eq_getElem _ _ hlength]
  rcases List.mem_cons.mp (List.getElem_mem hlength) with hzero | hmem
  · rw [hzero]
    exact Nat.zero_le _
  · simpa using (bounds_of_mem_startsFrom hmem).2

/-- The lines that begin in the second part begin behind the first. -/
theorem lt_getD_of_lt {s t : List Char} {j : Nat} (hj : (startsFrom 0 s).length < j)
    (hsize : j < (lineStarts (s ++ t)).size) : s.length < (lineStarts (s ++ t)).getD j 0 := by
  have hlength : (lineStarts (s ++ t)).size = (0 :: startsFrom 0 s).length + (startsFrom s.length t).length := by
    simp [lineStarts, startsFrom_append, Nat.add_right_comm]
  have hbehind : j - (0 :: startsFrom 0 s).length < (startsFrom s.length t).length := by
    rw [hlength] at hsize
    simp only [List.length_cons] at hsize ⊢
    omega
  rw [getD_lineStarts, startsFrom_append, ← List.cons_append, Nat.zero_add,
    List.getD_append_right _ _ _ _ (Nat.succ_le_of_lt hj), List.getD_eq_getElem _ _ hbehind]
  exact (bounds_of_mem_startsFrom (List.getElem_mem hbehind)).1

theorem getD_length_eq_lastStart (s : List Char) :
    (0 :: startsFrom 0 s).getD (startsFrom 0 s).length 0 = lastStart s := by
  unfold lastStart
  rcases List.eq_nil_or_concat' (startsFrom 0 s) with hnil | ⟨before, last, hlast⟩
  · rw [hnil]
    rfl
  · simp [hlast]

/-- Looking up an offset is counting line and column up to it. -/
theorem position_lineStarts (s t : List Char) :
    position (lineStarts (s ++ t)) s.length = positionAfter s := by
  have hsize : (startsFrom 0 s).length < (lineStarts (s ++ t)).size := by
    simp only [lineStarts, startsFrom_append, List.size_toArray, List.length_cons, List.length_append]
    omega
  have hindex : lineIndex (lineStarts (s ++ t)) s.length 0 ((lineStarts (s ++ t)).size - 1) =
      (startsFrom 0 s).length := by
    refine lineIndex_eq (Nat.zero_le _) (Nat.le_sub_one_of_lt hsize) ?_ ?_
    · intro j hj
      rw [getD_lineStarts_append hj]
      exact Int.ofNat_le.mpr (getD_le_of_le hj)
    · intro j hj hlast
      exact Int.ofNat_lt.mpr (lt_getD_of_lt hj (by omega))
  rw [positionAfter_eq, position, hindex, getD_lineStarts_append (Nat.le_refl _), getD_length_eq_lastStart]

/-! ## The order of places -/

/-- The place comes earlier in a text. -/
def Position.Before (p q : Position) : Prop := p.line < q.line ∨ p.line = q.line ∧ p.column < q.column

instance (p q : Position) : Decidable (p.Before q) := inferInstanceAs (Decidable (_ ∨ _))

theorem Position.Before.trans {p q r : Position} (hpq : p.Before q) (hqr : q.Before r) : p.Before r := by
  unfold Before at *
  omega

theorem Position.Before.asymm {p q : Position} (hpq : p.Before q) : ¬ q.Before p := by
  unfold Before at *
  omega

theorem before_advance (p : Position) (c : Char) : p.Before (advance p c) := by
  unfold advance
  split
  · exact .inl (Nat.lt_succ_self _)
  · exact .inr ⟨rfl, Int.lt_succ _⟩

/-- Characters lead on to later places. -/
theorem before_foldl_advance (p : Position) {s : List Char} (hs : s ≠ []) : p.Before (s.foldl advance p) := by
  induction s generalizing p with
  | nil => exact absurd rfl hs
  | cons c rest ih =>
    have hc := before_advance p c
    rw [List.foldl_cons]
    by_cases hrest : rest = []
    · rw [hrest]
      exact hc
    · exact hc.trans (ih _ hrest)

/-! ## Cutting -/

/-- The characters of a text that starts at a place, each with its own place. -/
def placed (p : Position) : List Char → List (Position × Char)
  | [] => []
  | c :: rest => (p, c) :: placed (advance p c) rest

/-- The characters of a text from the first place on and before the second. -/
def cut (first last : Position) (s : List Char) : List Char :=
  ((placed ⟨1, 1⟩ s).filter fun x => ¬ x.1.Before first ∧ x.1.Before last).map Prod.snd

theorem placed_append (p : Position) (s t : List Char) :
    placed p (s ++ t) = placed p s ++ placed (s.foldl advance p) t := by
  induction s generalizing p with
  | nil => rfl
  | cons c rest ih => rw [List.cons_append, placed, placed, ih, List.cons_append, List.foldl_cons]

theorem map_snd_placed (p : Position) (s : List Char) : (placed p s).map Prod.snd = s := by
  induction s generalizing p with
  | nil => rfl
  | cons c rest ih => rw [placed, List.map_cons, ih]

theorem bounds_of_mem_placed {p : Position} {s : List Char} {x : Position × Char} (hx : x ∈ placed p s) :
    ¬ x.1.Before p ∧ x.1.Before (s.foldl advance p) := by
  induction s generalizing p with
  | nil => cases hx
  | cons c rest ih =>
    rw [List.foldl_cons]
    rcases List.mem_cons.mp hx with rfl | hx
    · refine ⟨fun hself => hself.asymm hself, ?_⟩
      rw [← List.foldl_cons]
      exact before_foldl_advance p (by simp)
    · obtain ⟨hfirst, hlast⟩ := ih hx
      exact ⟨fun hbefore => hfirst (hbefore.trans (before_advance p c)), hlast⟩

/-- A stretch of a text is what its places cut out. -/
theorem cut_eq (s t u : List Char) : cut (positionAfter s) (positionAfter (s ++ t)) (s ++ t ++ u) = t := by
  have hend : positionAfter (s ++ t) = t.foldl advance (positionAfter s) := List.foldl_append
  have hplaced : placed ⟨1, 1⟩ (s ++ t ++ u) =
      placed ⟨1, 1⟩ s ++ placed (positionAfter s) t ++ placed (positionAfter (s ++ t)) u := by
    rw [placed_append, placed_append]
    rfl
  let inside := fun x : Position × Char =>
    decide (¬ x.1.Before (positionAfter s) ∧ x.1.Before (positionAfter (s ++ t)))
  have hbefore : (placed ⟨1, 1⟩ s).filter inside = [] := by
    refine List.filter_eq_nil_iff.mpr fun x hx => ?_
    have hearly : x.1.Before (positionAfter s) := (bounds_of_mem_placed hx).2
    simp [inside, hearly]
  have hwithin : (placed (positionAfter s) t).filter inside = placed (positionAfter s) t := by
    refine List.filter_eq_self.mpr fun x hx => ?_
    have hbounds := bounds_of_mem_placed hx
    rw [← hend] at hbounds
    simpa [inside] using hbounds
  have hbehind : (placed (positionAfter (s ++ t)) u).filter inside = [] := by
    refine List.filter_eq_nil_iff.mpr fun x hx => ?_
    have hlate : ¬ x.1.Before (positionAfter (s ++ t)) := (bounds_of_mem_placed hx).1
    simp [inside, hlate]
  show ((placed ⟨1, 1⟩ (s ++ t ++ u)).filter inside).map Prod.snd = t
  rw [hplaced, List.filter_append, List.filter_append, hbefore, hwithin, hbehind, List.nil_append,
    List.append_nil, map_snd_placed]

end Polyscan.Text
