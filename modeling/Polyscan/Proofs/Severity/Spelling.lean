import Mathlib.Data.List.Induction
import Mathlib.Data.List.TakeWhile
import Mathlib.Data.Nat.Digits.Defs
import Polyscan.Proofs.Items
import Polyscan.Proofs.Path
import Polyscan.Proofs.Text.Case
import Polyscan.Severity

/-!
The spellings of a level in a text: the digits of its number in any script, or its name in any case, with
white space around them. The kind of white space, leading zeros and the case make no difference.
-/
namespace Polyscan.Severity

/-! ## Numbers -/

/-- The text is the number in decimal digits of any script. -/
def IsNumeral (text : String) (n : Nat) : Prop :=
  text.toList ≠ [] ∧
    ∃ digits, List.Forall₂ (fun (c : Char) d => Text.decimalValue? c.toNat = some d) text.toList digits ∧
      Nat.ofDigits 10 digits.reverse = n

/-- The number of the digits read so far, followed by one more digit. -/
def takeDigit (n : Option Nat) (c : Char) : Option Nat := do pure ((← n) * 10 + (← Text.decimalValue? c.toNat))

theorem decimalNumber?_eq (text : List Char) : decimalNumber? text = text.foldl takeDigit (some 0) := rfl

/-- A character that is not a decimal digit is final. -/
theorem foldl_takeDigit_none (text : List Char) : text.foldl takeDigit none = none := by
  induction text with
  | nil => rfl
  | cons c rest ih => exact ih

theorem takeDigit_of_some {c : Char} {d : Nat} (h : Text.decimalValue? c.toNat = some d) (m : Nat) :
    takeDigit (some m) c = some (m * 10 + d) := by
  simp [takeDigit, h]

theorem foldl_takeDigit_eq_some_iff {text : List Char} {m n : Nat} :
    text.foldl takeDigit (some m) = some n ↔
      ∃ digits, List.Forall₂ (fun (c : Char) d => Text.decimalValue? c.toNat = some d) text digits ∧
        digits.foldl (fun n d => n * 10 + d) m = n := by
  induction text generalizing m with
  | nil => simp
  | cons c rest ih =>
    rw [List.foldl_cons]
    cases hc : Text.decimalValue? c.toNat with
    | none =>
      have hstep : takeDigit (some m) c = none := by simp [takeDigit, hc]
      rw [hstep, foldl_takeDigit_none]
      simp [List.forall₂_cons_left_iff, hc]
    | some d =>
      rw [takeDigit_of_some hc, ih]
      simp [List.forall₂_cons_left_iff, hc]

theorem ofDigits_reverse (digits : List Nat) :
    Nat.ofDigits 10 digits.reverse = digits.foldl (fun n d => n * 10 + d) 0 := by
  induction digits using List.reverseRecOn with
  | nil => rfl
  | append_singleton digits d ih =>
    rw [List.reverse_concat, Nat.ofDigits_cons, ih, List.foldl_concat]
    omega

theorem isNumeral_iff {text : String} {n : Nat} :
    IsNumeral text n ↔ text.toList ≠ [] ∧ decimalNumber? text.toList = some n := by
  simp only [IsNumeral, ofDigits_reverse, decimalNumber?_eq, foldl_takeDigit_eq_some_iff]

theorem isDecimal_of_decimalNumber? {text : List Char} {n : Nat} (h : decimalNumber? text = some n) :
    ∀ c ∈ text, Text.isDecimal c.toNat = true := by
  rw [decimalNumber?_eq, foldl_takeDigit_eq_some_iff] at h
  obtain ⟨digits, hdigits, -⟩ := h
  intro c hc
  obtain ⟨d, -, hd⟩ := exists_partner hdigits hc
  exact Option.isSome_iff_exists.mpr ⟨d, hd⟩

theorem exists_decimalNumber? {text : List Char} (h : ∀ c ∈ text, Text.isDecimal c.toNat = true) :
    ∃ n, decimalNumber? text = some n := by
  have hall : ∀ m, ∃ n, text.foldl takeDigit (some m) = some n := by
    induction text with
    | nil => exact fun m => ⟨m, rfl⟩
    | cons c rest ih =>
      intro m
      obtain ⟨d, hd⟩ := Option.isSome_iff_exists.mp (h c List.mem_cons_self)
      rw [List.foldl_cons, takeDigit_of_some hd]
      exact ih (fun c hc => h c (List.mem_cons_of_mem _ hc)) _
  exact hall 0

/-- Leading zeros do not change the number. -/
theorem decimalNumber?_zeros {zeros : List Char} (h : ∀ c ∈ zeros, Text.decimalValue? c.toNat = some 0)
    (text : List Char) : decimalNumber? (zeros ++ text) = decimalNumber? text := by
  have hzeros : zeros.foldl takeDigit (some 0) = some 0 := by
    induction zeros with
    | nil => rfl
    | cons c rest ih =>
      rw [List.foldl_cons, takeDigit_of_some (h c List.mem_cons_self)]
      exact ih fun d hd => h d (List.mem_cons_of_mem c hd)
  rw [decimalNumber?_eq, List.foldl_append, hzeros]
  rfl

/-! ## Trimmed texts -/

/-- The level of a text without white space around it. -/
def ofTrimmed (text : String) : Except Problem Severity :=
  if isDigits text then ofDigits text
  else
    match ofName? (Text.upper text) with
    | some level => .ok level
    | none => .error (.unknownName text)

/-- The problem with another text in place of the unknown name. -/
def Problem.quoting (text : String) : Problem → Problem
  | .unknownName _ => .unknownName text
  | problem => problem

theorem mapError_quoting_ofDigits (s text : String) :
    (ofDigits text).mapError (Problem.quoting s) = ofDigits text := by
  unfold ofDigits
  simp only
  split
  · rfl
  · split
    · rfl
    · split <;> rfl

theorem ofText_eq (s : String) : ofText s = (ofTrimmed (Text.trim s)).mapError (Problem.quoting s) := by
  rw [ofText, ofTrimmed]
  split
  · rw [mapError_quoting_ofDigits]
  · cases ofName? (Text.upper (Text.trim s)) <;> rfl

/-- `ofDigits` depends on the number alone, up to `digitLimit` digits. -/
theorem ofDigits_congr {s t : String} {n : Nat} (hs : decimalNumber? s.toList = some n)
    (ht : decimalNumber? t.toList = some n) (hshort : s.toList.length ≤ digitLimit)
    (hshort' : t.toList.length ≤ digitLimit) : ofDigits s = ofDigits t := by
  have hlead := List.takeWhile_eq_self_iff.mpr (isDecimal_of_decimalNumber? hs)
  have hlead' := List.takeWhile_eq_self_iff.mpr (isDecimal_of_decimalNumber? ht)
  simp only [ofDigits, hlead, hlead', hs, ht, if_neg (Nat.not_lt.mpr hshort), if_neg (Nat.not_lt.mpr hshort')]

theorem isDigits_iff {text : String} :
    isDigits text = true ↔ text.toList ≠ [] ∧ ∀ c ∈ text.toList, Text.isDigit c.toNat = true := by
  have hempty : text.isEmpty = false ↔ text.toList ≠ [] := by
    rw [← Bool.not_eq_true, String.isEmpty_iff, ← String.toList_inj, String.toList_empty]
  rw [isDigits, Bool.and_eq_true, Bool.not_eq_true', hempty, List.all_eq_true]

theorem IsNumeral.isDigits {text : String} {n : Nat} (h : IsNumeral text n) : isDigits text = true := by
  rw [isNumeral_iff] at h
  refine isDigits_iff.mpr ⟨h.1, fun c hc => ?_⟩
  rw [Text.isDigit, isDecimal_of_decimalNumber? h.2 c hc, Bool.true_or]

/-- `ofDigits` accepts the numerals of the levels of up to `digitLimit` digits. -/
theorem ofDigits_eq_ok_iff {text : String} (hne : text.toList ≠ []) {level : Severity} :
    ofDigits text = .ok level ↔ IsNumeral text level.number ∧ text.toList.length ≤ digitLimit := by
  rw [isNumeral_iff, ofDigits]
  cases hnumber : decimalNumber? text.toList with
  | none =>
    simp only
    split <;> simp
  | some n =>
    have hlead : text.toList.takeWhile (fun c => Text.isDecimal c.toNat) = text.toList :=
      List.takeWhile_eq_self_iff.mpr (isDecimal_of_decimalNumber? hnumber)
    simp only [hlead, hne, ne_eq, not_false_eq_true, true_and, Option.some.injEq]
    split
    · next hlong => simp [Nat.not_le.mpr hlong]
    · next hshort =>
      have hlevel : n = level.number ↔ ofNumber? (n : Int) = some level := by
        rw [ofNumber?_eq_some_iff, Int.natCast_inj]
      rw [hlevel, and_iff_left (Nat.le_of_not_lt hshort)]
      cases ofNumber? (n : Int) <;> simp

theorem ofTrimmed_eq_ok_iff (text : String) (level : Severity) :
    ofTrimmed text = .ok level ↔
      (IsNumeral text level.number ∧ text.toList.length ≤ digitLimit) ∨ Text.upper text = level.name := by
  unfold ofTrimmed
  split
  · next hdigits =>
    obtain ⟨hne, hall⟩ := isDigits_iff.mp hdigits
    have hname : Text.upper text ≠ level.name := by
      rw [Text.isDigit_letterless.upper_eq hall]
      rintro rfl
      have hdigits : level.name.toList.all (fun c => Text.isDigit c.toNat) = true := List.all_eq_true.mpr hall
      revert hdigits
      cases level <;> decide
    rw [ofDigits_eq_ok_iff hne, or_iff_left hname]
  · next hdigits =>
    rw [or_iff_right fun h => hdigits h.1.isDigits, ← ofName?_eq_some_iff]
    cases ofName? (Text.upper text) <;> simp

/-! ## Spellings that make no difference -/

/-- White space. -/
def IsSpace (s : String) : Prop := ∀ c ∈ s.toList, Text.isBlank c.toNat = true

/-- How texts are read as levels. Spellings that differ in white space, leading zeros or case give the same
level or the same problem, except that an unknown name is quoted as it was given. -/
structure ReadsTexts : Prop where
  /-- A text is read as the level whose number or name it is. -/
  spelled : ∀ s level, parse (.str s) = .ok level ↔
    (IsNumeral (Text.trim s) level.number ∧ (Text.trim s).toList.length ≤ digitLimit) ∨
      Text.upper (Text.trim s) = level.name
  padded : ∀ lead s tail, IsSpace lead → IsSpace tail →
    parse (.str (lead ++ s ++ tail)) = (parse (.str s)).mapError (Problem.quoting (lead ++ s ++ tail))
  /-- Leading zeros change nothing up to `digitLimit` digits. -/
  zeros : ∀ lead zeros number tail, IsSpace lead → IsSpace tail →
    (∀ c ∈ zeros.toList, Text.decimalValue? c.toNat = some 0) →
    number.toList ≠ [] → (∀ c ∈ number.toList, Text.isDecimal c.toNat = true) →
    (zeros ++ number).toList.length ≤ digitLimit →
    parse (.str (lead ++ (zeros ++ number) ++ tail)) = parse (.str (lead ++ number ++ tail))
  raised : ∀ s, parse (.str (Text.upper s)) = (parse (.str s)).mapError (Problem.quoting (Text.upper s))

theorem trim_padded {lead tail : String} (s : String) (hlead : IsSpace lead) (htail : IsSpace tail) :
    Text.trim (lead ++ s ++ tail) = Text.trim s := by
  unfold Text.trim Text.trimChars
  rw [String.toList_append, String.toList_append, List.append_assoc, Text.dropWhile_append_of_all _ _ _ hlead,
    List.dropWhile_append]
  split
  · next hnone =>
    have hboth : tail.toList.dropWhile (fun c => Text.isBlank c.toNat) = [] :=
      List.dropWhile_eq_nil_iff.mpr htail
    rw [hboth, List.isEmpty_iff.mp hnone]
  · rw [Text.dropEnd_append_of_all _ _ _ htail]

/-- Digits have no white space around them. -/
theorem trim_of_isDigits {text : String} (h : isDigits text = true) : Text.trim text = text := by
  obtain ⟨hne, hall⟩ := isDigits_iff.mp h
  have hsolid : ∀ c ∈ text.toList, Text.isBlank c.toNat = false := by
    intro c hc
    rw [← Bool.not_eq_true]
    exact fun hblank => Text.blankPoints_disjoint_digitPoints (Text.mem_blankPoints hblank)
      (Text.mem_digitPoints (hall c hc))
  have hlead : text.toList.dropWhile (fun c => Text.isBlank c.toNat) = text.toList :=
    List.dropWhile_eq_self_iff.mpr fun hlt => by simp [hsolid _ (List.getElem_mem hlt)]
  have hend := Text.dropEnd_append_of_none (l := []) hne hsolid
  rw [← String.toList_inj, Text.trim, String.toList_ofList, Text.trimChars, hlead]
  exact hend

/-- White space around digits is ignored. -/
theorem parse_padded_digits {lead text tail : String} (hlead : IsSpace lead) (htail : IsSpace tail)
    (h : isDigits text = true) : parse (.str (lead ++ text ++ tail)) = ofDigits text := by
  rw [parse, ofText_eq, trim_padded text hlead htail, trim_of_isDigits h, ofTrimmed, if_pos h,
    mapError_quoting_ofDigits]

/-- The last text is quoted. -/
theorem mapError_quoting_quoting (s t : String) (x : Except Problem Severity) :
    (x.mapError (Problem.quoting s)).mapError (Problem.quoting t) = x.mapError (Problem.quoting t) := by
  rcases x with problem | level
  · cases problem <;> rfl
  · rfl

theorem isDigits_upper (text : String) : isDigits (Text.upper text) = isDigits text := by
  have hempty : (Text.upper text).toList = [] ↔ text.toList = [] := by
    rw [Text.toList_upper, List.flatMap_eq_nil_iff, List.eq_nil_iff_forall_not_mem]
    exact forall₂_congr fun c _ => iff_false_intro (Text.upperChars_ne_nil c)
  have hall := Text.isDigit_letterless.all_upper text
  rw [Bool.eq_iff_iff, isDigits_iff, isDigits_iff, ← List.all_eq_true, ← List.all_eq_true, hall, ne_eq, hempty]

/-- `ofTrimmed` does not depend on the case. -/
theorem ofTrimmed_upper (text : String) :
    ofTrimmed (Text.upper text) = (ofTrimmed text).mapError (Problem.quoting (Text.upper text)) := by
  rw [ofTrimmed, ofTrimmed, isDigits_upper]
  split
  · next hdigits =>
    rw [Text.isDigit_letterless.upper_eq (isDigits_iff.mp hdigits).2, mapError_quoting_ofDigits]
  · rw [Text.upper_upper]
    cases ofName? (Text.upper text) <;> rfl

theorem reads_texts : ReadsTexts where
  spelled s level := by
    have hok : ∀ x : Except Problem Severity, x.mapError (Problem.quoting s) = .ok level ↔ x = .ok level := by
      intro x
      cases x <;> simp [Except.mapError]
    rw [parse, ofText_eq, hok, ofTrimmed_eq_ok_iff]
  padded lead s tail hlead htail := by
    rw [parse, parse, ofText_eq, ofText_eq, trim_padded s hlead htail, mapError_quoting_quoting]
  zeros lead zeros number tail hlead htail hzeros hne hnumber hshort := by
    obtain ⟨n, hn⟩ := exists_decimalNumber? hnumber
    have hzn : decimalNumber? (zeros ++ number).toList = some n := by
      rw [String.toList_append, decimalNumber?_zeros hzeros, hn]
    have hnumeral : IsNumeral number n := isNumeral_iff.mpr ⟨hne, hn⟩
    have hzeroNumeral : IsNumeral (zeros ++ number) n := isNumeral_iff.mpr ⟨by simp [hne], hzn⟩
    have hshort' : number.toList.length ≤ digitLimit := by
      rw [String.toList_append, List.length_append] at hshort
      omega
    rw [parse_padded_digits hlead htail hzeroNumeral.isDigits, parse_padded_digits hlead htail hnumeral.isDigits,
      ofDigits_congr hzn hn hshort hshort']
  raised s := by
    rw [parse, parse, ofText_eq, ofText_eq, Text.trim_upper, ofTrimmed_upper, mapError_quoting_quoting,
      mapError_quoting_quoting]

example : (parse (.str " ٠0３\t")).toOption = some moderate := by decide +kernel

example : (parse (.str "ınfo")).toOption = some info := by decide +kernel

end Polyscan.Severity
