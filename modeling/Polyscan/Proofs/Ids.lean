import Mathlib.Data.List.Nodup
import Polyscan.Ids

/-!
Identifiers of one counter. The number follows the lead without a separator, so "run1" with the number 1 and
"run" with the number 11 are the same identifier. `ids_nodup_iff` says that this is the only way in which two
identifiers are equal; leads that do not end with a digit are safe (`ids_nodup_of_no_digit`).
-/
namespace Polyscan.IdCounter

/-- The `i`th lead gets the number `count + i + 1`. -/
theorem ids_eq_mapIdx (c : IdCounter) (leads : List String) :
    c.ids leads = leads.mapIdx fun i lead => lead ++ toString (c.count + (i + 1)) := by
  induction leads generalizing c with
  | nil => rfl
  | cons lead rest ih =>
    have hcount : ∀ i, c.count + 1 + (i + 1) = c.count + (i + 1 + 1) := by omega
    simp only [ids, next, ih, hcount, List.mapIdx_cons, Nat.zero_add]

/-! ## Numbers behind leads -/

theorem toList_toString (n : Nat) : (toString n).toList = Nat.toDigits 10 n := by
  rw [Nat.toString_eq_repr, Nat.repr_eq_ofList_toDigits, String.toList_ofList]

/-- A greater number has at least as many digits. -/
theorem length_toDigits_mono {m n : Nat} (h : m ≤ n) :
    (Nat.toDigits 10 m).length ≤ (Nat.toDigits 10 n).length := by
  have hpos : 0 < (Nat.toDigits 10 n).length := List.length_pos_iff.mpr Nat.toDigits_ne_nil
  rw [Nat.length_toDigits_le_iff (by decide) hpos]
  exact Nat.lt_of_le_of_lt h ((Nat.length_toDigits_le_iff (by decide) hpos).mp (Nat.le_refl _))

/-- The digits of a smaller number do not end with those of a greater one. -/
theorem toDigits_ne_append {m n : Nat} (h : m < n) (front : List Char) :
    Nat.toDigits 10 m ≠ front ++ Nat.toDigits 10 n := by
  intro heq
  have hlength := congrArg List.length heq
  rw [List.length_append] at hlength
  have hmono := length_toDigits_mono (Nat.le_of_lt h)
  have hfront : front = [] := List.length_eq_zero_iff.mp (by omega)
  rw [hfront, List.nil_append] at heq
  have hvalue := congrArg (fun l => Nat.ofDigitChars 10 l 0) heq
  simp only [Nat.ofDigitChars_ten_toDigits] at hvalue
  omega

/-- The lead of the number `m` is the lead of the later number `n` followed by some digits, and `n` is these
digits followed by `m`. -/
def Blurs (lead later : String) (m n : Nat) : Prop :=
  ∃ digits, digits ≠ "" ∧ lead = later ++ digits ∧ toString n = digits ++ toString m

/-- Identifiers with different numbers are equal if and only if the first lead blurs into the second. -/
theorem append_toString_eq_iff {lead later : String} {m n : Nat} (h : m < n) :
    lead ++ toString m = later ++ toString n ↔ Blurs lead later m n := by
  constructor
  · intro heq
    have hchars := String.toList_inj.mpr heq
    simp only [String.toList_append, toList_toString] at hchars
    rcases List.append_eq_append_iff.mp hchars with ⟨front, -, hm⟩ | ⟨digits, hlead, hn⟩
    · exact absurd hm (toDigits_ne_append h front)
    · refine ⟨String.ofList digits, ?_, ?_, ?_⟩
      · rintro hempty
        have hnil : digits = [] := by simpa using String.toList_inj.mpr hempty
        rw [hnil, List.nil_append] at hn
        exact toDigits_ne_append h [] hn.symm
      · rw [← String.toList_inj, String.toList_append, String.toList_ofList, hlead]
      · rw [← String.toList_inj, String.toList_append, String.toList_ofList, toList_toString,
          toList_toString, hn]
  · rintro ⟨digits, -, hlead, hn⟩
    rw [hlead, hn, String.append_assoc]

/-- The identifiers of a list of leads are distinct if and only if no lead blurs into the number of a later
one. -/
theorem ids_nodup_iff (c : IdCounter) (leads : List String) :
    (c.ids leads).Nodup ↔
      ∀ (i j : Nat) (hij : i < j) (hj : j < leads.length),
        ¬ Blurs leads[i] leads[j] (c.count + (i + 1)) (c.count + (j + 1)) := by
  rw [ids_eq_mapIdx, List.Nodup, List.pairwise_iff_getElem]
  simp only [List.length_mapIdx, List.getElem_mapIdx]
  constructor
  · intro hpairs i j hij hj hblurs
    exact hpairs i j (Nat.lt_trans hij hj) hj hij ((append_toString_eq_iff (by omega)).mpr hblurs)
  · intro hclear i j _ hj hij heq
    exact hclear i j hij hj ((append_toString_eq_iff (by omega)).mp heq)

/-- The first identifier of "run1" is the eleventh one of the list. -/
theorem ids_repeat_elevenRuns : ¬ (ids {} ("run1" :: List.replicate 10 "run")).Nodup := by
  decide

/-- A lead that blurs ends with a digit. -/
theorem Blurs.exists_digit {lead later : String} {m n : Nat} (h : Blurs lead later m n) :
    ∃ front d, lead.toList = front ++ [d] ∧ d.isDigit = true := by
  obtain ⟨digits, hne, hlead, hn⟩ := h
  have hchars := String.toList_inj.mpr hn
  rw [String.toList_append, toList_toString, toList_toString] at hchars
  obtain ⟨front, d, hdigits⟩ := (List.eq_nil_or_concat' digits.toList).resolve_left
    fun hnil => hne (by rw [← String.toList_inj, hnil, String.toList_empty])
  have hd : d ∈ Nat.toDigits 10 n := by simp [hchars, hdigits]
  refine ⟨later.toList ++ front, d, ?_, Nat.isDigit_of_mem_toDigits (by decide) (by decide) hd⟩
  rw [hlead, String.toList_append, hdigits, List.append_assoc]

/-- Leads that do not end with a digit have distinct identifiers. -/
theorem ids_nodup_of_no_digit (c : IdCounter) {leads : List String}
    (h : ∀ lead ∈ leads, ∀ front d, lead.toList = front ++ [d] → d.isDigit = false) :
    (c.ids leads).Nodup := by
  rw [ids_nodup_iff]
  intro i j hij hj hblurs
  obtain ⟨front, d, hlead, hdigit⟩ := hblurs.exists_digit
  have hnot := h leads[i] (List.getElem_mem (Nat.lt_trans hij hj)) front d hlead
  rw [hdigit] at hnot
  cases hnot

end Polyscan.IdCounter
