import Mathlib.Data.List.Basic
import Mathlib.Data.Nat.Bitwise
import Polyscan.Text.Class

/-!
Classes of characters as lists of code points. Membership in a class is decided by bisection of a table; every
code point that is found is among the points of the table. Two lists of points are disjoint if the numbers with
these bits are.
-/
namespace Polyscan.Text

/-! ## What halving a table ends with -/

/-- The entries of a table in front of a place and the entry behind it, on the two sides of a point. -/
structure Splits (table : Array Nat) (c i : Nat) : Prop where
  le_size : i ≤ table.size
  before : 0 < i → table.getD (i - 1) 0 ≤ c
  behind : i < table.size → c < table.getD i 0

/-- Each step leaves at most half of the stretch, so it is empty when the steps are used up. -/
theorem splits_rankBetween {table : Array Nat} {c steps lo hi : Nat} (hsteps : hi - lo < 2 ^ steps)
    (hlo : lo ≤ hi) (hhi : hi ≤ table.size) (hbefore : 0 < lo → table.getD (lo - 1) 0 ≤ c)
    (hbehind : hi < table.size → c < table.getD hi 0) :
    Splits table c (rankBetween table c steps lo hi) := by
  have hdone : lo = hi → Splits table c lo := by
    rintro rfl
    exact ⟨hhi, hbefore, hbehind⟩
  induction steps generalizing lo hi with
  | zero => exact hdone (by simp only [Nat.pow_zero] at hsteps; omega)
  | succ steps ih =>
    rw [Nat.pow_succ] at hsteps
    unfold rankBetween
    by_cases hlt : lo < hi
    · rw [if_pos hlt]
      simp only
      by_cases hmid : table.getD ((lo + hi) / 2) 0 ≤ c
      · rw [if_pos hmid]
        have hupper : 0 < (lo + hi) / 2 + 1 → table.getD ((lo + hi) / 2 + 1 - 1) 0 ≤ c := fun _ => hmid
        refine ih (by omega) (by omega) hhi hupper hbehind ?_
        intro heq
        exact ⟨by omega, hupper, by rwa [heq]⟩
      · rw [if_neg hmid]
        have hlower : (lo + hi) / 2 < table.size → c < table.getD ((lo + hi) / 2) 0 :=
          fun _ => Nat.lt_of_not_le hmid
        refine ih (by omega) (by omega) (by omega) hbefore hlower ?_
        intro heq
        exact ⟨by omega, hbefore, by rwa [← heq] at hlower⟩
    · rw [if_neg hlt]
      exact hdone (by omega)

theorem splits_rank (table : Array Nat) (c : Nat) : Splits table c (rank table c) := by
  have hsteps : table.size - 0 < 2 ^ (table.size.log2 + 2) := by
    have hlog : table.size < 2 ^ (table.size.log2 + 1) := Nat.lt_log2_self
    rw [Nat.pow_succ]
    omega
  exact splits_rankBetween hsteps (Nat.zero_le _) (Nat.le_refl _) (fun h => absurd h (Nat.lt_irrefl 0))
    fun h => absurd h (Nat.lt_irrefl _)

/-! ## The points of a table -/

/-- The members of a set that is given by its boundaries. -/
def points (bounds : Array Nat) : List Nat :=
  (List.range (bounds.size / 2)).flatMap fun i =>
    List.range' (bounds.getD (2 * i) 0) (bounds.getD (2 * i + 1) 0 - bounds.getD (2 * i) 0)

theorem mem_points_of_within {bounds : Array Nat} {c : Nat} (heven : bounds.size % 2 = 0)
    (h : within bounds c = true) : c ∈ points bounds := by
  have hsplits := splits_rank bounds c
  have hodd : rank bounds c % 2 = 1 := by simpa [within] using h
  have hsize := hsplits.le_size
  obtain ⟨i, hi⟩ : ∃ i, rank bounds c = 2 * i + 1 := ⟨rank bounds c / 2, by omega⟩
  rw [hi] at hsplits hsize
  have hfirst : bounds.getD (2 * i) 0 ≤ c := hsplits.before (by omega)
  have hlast : c < bounds.getD (2 * i + 1) 0 := hsplits.behind (by omega)
  rw [points, List.mem_flatMap]
  refine ⟨i, List.mem_range.mpr (by omega), List.mem_range'_1.mpr ⟨hfirst, by omega⟩⟩

/-- A decimal digit stands as far behind the zero of its script as its value tells. -/
theorem decimalValue?_eq_some {c d : Nat} (h : decimalValue? c = some d) :
    d < 10 ∧ ∃ first ∈ decimalZeros.toList, c = first + d := by
  unfold decimalValue? at h
  split at h
  · split at h
    · next hascii =>
      obtain rfl := Option.some.inj h
      exact ⟨by omega, 48, List.mem_cons_self, by omega⟩
    · cases h
  · split at h
    · cases h
    · next i hrank =>
      simp only at h
      split at h
      · next hd =>
        obtain rfl := Option.some.inj h
        have hsplits := splits_rank decimalZeros c
        rw [hrank] at hsplits
        have hi : i < decimalZeros.size := hsplits.le_size
        have hle : decimalZeros.getD i 0 ≤ c := hsplits.before (Nat.succ_pos i)
        refine ⟨hd, decimalZeros.getD i 0, ?_, by omega⟩
        rw [Array.getD, dif_pos hi]
        exact Array.getElem_mem_toList hi
      · cases h

/-- Decimal digits of all scripts, and the other digits. -/
def digitPoints : List Nat :=
  decimalZeros.toList.flatMap (fun first => List.range' first 10) ++ points otherDigitBounds

theorem mem_digitPoints {c : Nat} (h : isDigit c = true) : c ∈ digitPoints := by
  rw [isDigit, Bool.or_eq_true] at h
  rw [digitPoints, List.mem_append]
  rcases h with hdecimal | hother
  · obtain ⟨d, hd⟩ := Option.isSome_iff_exists.mp hdecimal
    obtain ⟨hlt, first, hmem, rfl⟩ := decimalValue?_eq_some hd
    exact .inl (List.mem_flatMap.mpr ⟨first, hmem, List.mem_range'_1.mpr ⟨by omega, by omega⟩⟩)
  · exact .inr (mem_points_of_within rfl hother)

def blankPoints : List Nat :=
  List.range' 9 5 ++ List.range' 28 5 ++ List.range' 0x2000 11 ++
    [0x85, 0xa0, 0x1680, 0x2028, 0x2029, 0x202f, 0x205f, 0x3000]

theorem mem_blankPoints {c : Nat} (h : isBlank c = true) : c ∈ blankPoints := by
  simp only [isBlank, Bool.or_eq_true, Bool.and_eq_true, decide_eq_true_eq, beq_iff_eq] at h
  simp only [blankPoints, List.mem_append, List.mem_range'_1, List.mem_cons, List.not_mem_nil, or_false]
  omega

/-! ## Lists of points as numbers -/

/-- The number whose bits are set at the given places. -/
def bits (places : List Nat) : Nat := places.foldr (fun n set => set ||| 1 <<< n) 0

theorem testBit_bits (places : List Nat) (n : Nat) : (bits places).testBit n = decide (n ∈ places) := by
  induction places with
  | nil => simp [bits]
  | cons m rest ih =>
    have hone : (1 <<< m).testBit n = decide (n = m) := by
      rw [Nat.one_shiftLeft, Nat.testBit_two_pow, decide_eq_decide]
      exact eq_comm
    have hcons : bits (m :: rest) = bits rest ||| 1 <<< m := rfl
    rw [hcons, Nat.testBit_or, ih, hone, ← Bool.decide_or, decide_eq_decide, List.mem_cons, or_comm]

theorem disjoint_of_bits {a b : List Nat} (h : bits a &&& bits b = 0) : a.Disjoint b := by
  intro n ha hb
  have hbit := congrArg (fun set => set.testBit n) h
  simp only [Nat.testBit_and, testBit_bits, ha, hb, Nat.zero_testBit, decide_true, Bool.and_self] at hbit
  cases hbit

/-- Nothing blank is a digit. -/
theorem blankPoints_disjoint_digitPoints : blankPoints.Disjoint digitPoints :=
  disjoint_of_bits (by decide +kernel)

end Polyscan.Text
