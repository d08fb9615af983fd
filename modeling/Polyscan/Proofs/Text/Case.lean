import Polyscan.Proofs.Text.Points
import Polyscan.Text.Basic
import Polyscan.Text.Case

/-!
Upper case of texts. A character either is its own upper case, or it is neither blank nor a digit and goes
over into characters that are their own upper case and neither blank nor digits. So upper case of upper case
is the same once more, and a text is trimmed, and known for one of digits, alike in both forms.
-/
namespace Polyscan.Text

/-! ## What upper case changes, and into what -/

/-- The members of a run. -/
def CaseRun.points (run : CaseRun) : List Nat :=
  List.range' run.first ((run.last - run.first) / run.step + 1) run.step

/-- The characters that are not their own upper case. -/
def small : List Nat := upperRuns.toList.flatMap CaseRun.points ++ longUpper.toList.map Prod.fst

/-- The characters that these go over into. -/
def capital : List Nat :=
  upperRuns.toList.flatMap (fun run => run.points.map fun c : Nat => (c + run.shift).toNat) ++
    longUpper.toList.flatMap Prod.snd

theorem small_disjoint_capital : small.Disjoint capital := disjoint_of_bits (by decide +kernel)

/-- Letters are no digits and not blank, neither small nor capital ones. -/
theorem letters_disjoint : (small ++ capital).Disjoint (digitPoints ++ blankPoints) :=
  disjoint_of_bits (by decide +kernel)

theorem isValidChar_of_mem_capital {n : Nat} (h : n ∈ capital) : n.isValidChar := by
  have hall : capital.all (fun n => decide n.isValidChar) = true := by decide +kernel
  exact of_decide_eq_true (List.all_eq_true.mp hall n h)

theorem runBetween_eq_some {table : Array CaseRun} {c steps lo hi : Nat} {run : CaseRun}
    (h : runBetween table c steps lo hi = some run) : run ∈ table.toList ∧ c ∈ run.points := by
  induction steps generalizing lo hi with
  | zero => cases h
  | succ steps ih =>
    unfold runBetween at h
    split at h
    · simp only at h
      split at h
      · cases h
      · next found hfound =>
        split at h
        · exact ih h
        · split at h
          · exact ih h
          · split at h
            · next hfirst hlast hstep =>
              obtain rfl := Option.some.inj h
              refine ⟨Array.mem_toList_iff.mpr (Array.mem_of_getElem? hfound), ?_⟩
              have hle : (c - found.first) / found.step ≤ (found.last - found.first) / found.step :=
                Nat.div_le_div_right (by omega)
              have hsplit := Nat.div_add_mod (c - found.first) found.step
              exact List.mem_range'.mpr ⟨(c - found.first) / found.step, by omega, by omega⟩
            · cases h
    · cases h

theorem upperOf_cases (c : Nat) : upperOf c = c ∨ (c ∈ small ∧ upperOf c ∈ capital) := by
  have hrun : ∀ run ∈ upperRuns.toList, c ∈ run.points →
      c ∈ small ∧ (c + run.shift).toNat ∈ capital := by
    intro run hrun hc
    exact ⟨List.mem_append_left _ (List.mem_flatMap.mpr ⟨run, hrun, hc⟩),
      List.mem_append_left _ (List.mem_flatMap.mpr ⟨run, hrun, List.mem_map.mpr ⟨c, hc, rfl⟩⟩)⟩
  unfold upperOf
  split
  · split
    · next hc =>
      have hletter : c ∈ List.range' 97 26 := List.mem_range'_1.mpr ⟨hc.1, by omega⟩
      have hboth := hrun ⟨97, 122, 1, -32⟩ List.mem_cons_self hletter
      have hshift : ((c : Int) + -32).toNat = c - 32 := by omega
      rw [hshift] at hboth
      exact .inr hboth
    · exact .inl rfl
  · unfold mapCase
    split
    · next run hfound =>
      obtain ⟨hmem, hc⟩ := runBetween_eq_some hfound
      exact .inr (hrun run hmem hc)
    · exact .inl rfl

theorem toNat_of_mem_capital {n : Nat} (h : n ∈ capital) : (Char.ofNat n).toNat = n := by
  rw [Char.ofNat, dif_pos (isValidChar_of_mem_capital h)]
  rfl

theorem longUpper_ne_nil {e : Nat × List Nat} (h : e ∈ longUpper.toList) : e.2 ≠ [] := by
  have hall : longUpper.toList.all (fun e => !e.2.isEmpty) = true := by decide +kernel
  simpa using List.all_eq_true.mp hall e h

/-- A character is its own upper case, or a small letter that goes over into capitals. -/
theorem upperChars_cases (c : Char) :
    upperChars c = [c] ∨
      (c.toNat ∈ small ∧ upperChars c ≠ [] ∧ ∀ d ∈ upperChars c, d.toNat ∈ capital) := by
  have hone : [Char.ofNat (upperOf c.toNat)] = [c] ∨ (c.toNat ∈ small ∧ [Char.ofNat (upperOf c.toNat)] ≠ [] ∧
      ∀ d ∈ [Char.ofNat (upperOf c.toNat)], d.toNat ∈ capital) := by
    rcases upperOf_cases c.toNat with hsame | ⟨hsmall, hcapital⟩
    · exact .inl (by rw [hsame, Char.ofNat_toNat])
    · refine .inr ⟨hsmall, List.cons_ne_nil _ _, fun d hd => ?_⟩
      rw [List.mem_singleton.mp hd, toNat_of_mem_capital hcapital]
      exact hcapital
  unfold upperChars
  split
  · exact hone
  · split
    · next code cs hfound =>
      have hmem : (code, cs) ∈ longUpper.toList :=
        Array.mem_toList_iff.mpr (Array.mem_of_find?_eq_some hfound)
      have hcode : code = c.toNat := by simpa using Array.find?_some hfound
      refine .inr ⟨?_, ?_, fun d hd => ?_⟩
      · exact List.mem_append_right _ (List.mem_map.mpr ⟨_, hmem, hcode⟩)
      · exact fun hnil => longUpper_ne_nil hmem (List.map_eq_nil_iff.mp hnil)
      · obtain ⟨n, hn, rfl⟩ := List.mem_map.mp hd
        have hcapital : n ∈ capital := List.mem_append_right _ (List.mem_flatMap.mpr ⟨_, hmem, hn⟩)
        rw [toNat_of_mem_capital hcapital]
        exact hcapital
    · exact hone

theorem upperChars_ne_nil (c : Char) : upperChars c ≠ [] := by
  rcases upperChars_cases c with h | ⟨-, h, -⟩
  · rw [h]
    exact List.cons_ne_nil _ _
  · exact h

theorem upperChars_of_mem {c d : Char} (hd : d ∈ upperChars c) : upperChars d = [d] := by
  rcases upperChars_cases c with h | ⟨-, -, hcapital⟩
  · rw [h, List.mem_singleton] at hd
    rw [hd, h]
  · refine (upperChars_cases d).resolve_right fun hsmall => ?_
    exact small_disjoint_capital hsmall.1 (hcapital d hd)

/-- A class of characters with no letters in it. -/
def Letterless (p : Nat → Bool) : Prop := ∀ n, p n = true → n ∈ digitPoints ++ blankPoints

theorem isDigit_letterless : Letterless isDigit := fun _ h => List.mem_append_left _ (mem_digitPoints h)

theorem isBlank_letterless : Letterless isBlank := fun _ h => List.mem_append_right _ (mem_blankPoints h)

section

variable {p : Nat → Bool} (hp : Letterless p)

include hp

theorem Letterless.upperChars_eq {c : Char} (hc : p c.toNat = true) : upperChars c = [c] :=
  (upperChars_cases c).resolve_right fun hsmall =>
    letters_disjoint (List.mem_append_left _ hsmall.1) (hp _ hc)

/-- Upper case goes neither into such a class nor out of it. -/
theorem Letterless.eq_of_mem {c d : Char} (hd : d ∈ upperChars c) : p d.toNat = p c.toNat := by
  rcases upperChars_cases c with h | ⟨hsmall, -, hcapital⟩
  · rw [h, List.mem_singleton] at hd
    rw [hd]
  · have hnot : ∀ n ∈ small ++ capital, p n = false := by
      intro n hn
      rw [← Bool.not_eq_true]
      exact fun h => letters_disjoint hn (hp n h)
    rw [hnot _ (List.mem_append_left _ hsmall), hnot _ (List.mem_append_right _ (hcapital d hd))]

end

/-! ## Texts -/

theorem toList_upper (s : String) : (upper s).toList = s.toList.flatMap upperChars := String.toList_ofList

/-- A text whose characters are their own upper case is its own upper case. -/
theorem upper_eq_self {s : String} (h : ∀ c ∈ s.toList, upperChars c = [c]) : upper s = s := by
  rw [← String.toList_inj, toList_upper, List.flatMap_congr h, List.flatMap_singleton']

theorem upper_upper (s : String) : upper (upper s) = upper s := by
  refine upper_eq_self fun d hd => ?_
  rw [toList_upper] at hd
  obtain ⟨c, -, hd⟩ := List.mem_flatMap.mp hd
  exact upperChars_of_mem hd

section

variable {p : Nat → Bool} (hp : Letterless p)

include hp

/-- Nothing changes in a text of such characters. -/
theorem Letterless.upper_eq {s : String} (h : ∀ c ∈ s.toList, p c.toNat = true) : upper s = s :=
  upper_eq_self fun c hc => hp.upperChars_eq (h c hc)

/-- A text is made of such characters alone exactly if its upper case is. -/
theorem Letterless.all_upper (s : String) :
    (upper s).toList.all (fun c => p c.toNat) = s.toList.all fun c => p c.toNat := by
  have hchar : ∀ c : Char, (upperChars c).all (fun d => p d.toNat) = p c.toNat := by
    intro c
    obtain ⟨d, rest, hcons⟩ := List.exists_cons_of_ne_nil (upperChars_ne_nil c)
    rw [Bool.eq_iff_iff, List.all_eq_true]
    constructor
    · intro hall
      have hd : d ∈ upperChars c := by simp [hcons]
      rw [← hp.eq_of_mem hd]
      exact hall d hd
    · intro hc d hd
      rw [hp.eq_of_mem hd]
      exact hc
  simp only [toList_upper, List.all_flatMap, hchar]

end

section

variable {α β : Type} {p : α → Bool} {q : β → Bool} {f : α → List β} (hne : ∀ a, f a ≠ [])
  (hf : ∀ a, ∀ b ∈ f a, q b = p a)

include hne hf

theorem dropWhile_flatMap (l : List α) : (l.flatMap f).dropWhile q = (l.dropWhile p).flatMap f := by
  induction l with
  | nil => rfl
  | cons a rest ih =>
    rw [List.flatMap_cons]
    by_cases ha : p a = true
    · rw [dropWhile_append_of_all q _ _ fun b hb => (hf a b hb).trans ha, ih, List.dropWhile_cons_of_pos ha]
    · obtain ⟨b, more, hcons⟩ := List.exists_cons_of_ne_nil (hne a)
      have hb : ¬ q b = true := by rwa [hf a b (by simp [hcons])]
      rw [List.dropWhile_cons_of_neg ha, List.flatMap_cons, hcons, List.cons_append,
        List.dropWhile_cons_of_neg hb]

theorem dropEnd_flatMap (l : List α) : dropEnd q (l.flatMap f) = (dropEnd p l).flatMap f := by
  have hreverse : ∀ a, (List.reverse ∘ f) a ≠ [] := fun a h => hne a (List.reverse_eq_nil_iff.mp h)
  have hdropped := dropWhile_flatMap hreverse (fun a b hb => hf a b (List.mem_reverse.mp hb)) l.reverse
  rw [dropEnd, dropEnd, List.reverse_flatMap, hdropped, List.reverse_flatMap, ← Function.comp_assoc]
  simp only [Function.comp_def, List.reverse_reverse]

end

/-- It makes no difference whether a text is trimmed before or after. -/
theorem trim_upper (s : String) : trim (upper s) = upper (trim s) := by
  have hblank : ∀ c : Char, ∀ d ∈ upperChars c, isBlank d.toNat = isBlank c.toNat :=
    fun _ _ hd => isBlank_letterless.eq_of_mem hd
  rw [← String.toList_inj, toList_upper, trim, trim, String.toList_ofList, String.toList_ofList, toList_upper,
    trimChars, trimChars, dropWhile_flatMap upperChars_ne_nil hblank, dropEnd_flatMap upperChars_ne_nil hblank]

end Polyscan.Text
