import Polyscan.Json.Reader
import Polyscan.Json.Writer
import Polyscan.Proofs.Text.Line

/-!
Strings in notation. Every code point is written in a form of its own, which is made of visible ASCII
characters and is read as this code point, except that the halves of a pair that stand one behind the other
are read as one character. A string without such pairs is read back up to its closing quote.
-/
namespace Polyscan.Json

/-! ## Escapes -/

theorem hexValue?_digitChar {d : Nat} (h : d < 16) : Text.hexValue? (Nat.digitChar d) = some d := by
  have hall : ∀ d : Fin 16, Text.hexValue? (Nat.digitChar d) = some d.val := by decide
  exact hall ⟨d, h⟩

theorem isPlain_digitChar {d : Nat} (h : d < 16) : Text.IsPlain (Nat.digitChar d) := by
  have hall : ∀ d : Fin 16, Text.IsPlain (Nat.digitChar d) := by decide
  exact hall ⟨d, h⟩

theorem isPlain_of_mem_toDigits {n : Nat} {c : Char} (h : c ∈ Nat.toDigits 16 n) : Text.IsPlain c := by
  induction n using Nat.strongRecOn with
  | ind n ih =>
    by_cases hn : n < 16
    · rw [Nat.toDigits_of_lt_base hn, List.mem_singleton] at h
      exact h ▸ isPlain_digitChar hn
    · rw [Nat.toDigits_of_base_le (by decide) (Nat.le_of_not_lt hn)] at h
      rcases List.mem_append.mp h with h | h
      · exact ih (n / 16) (by omega) h
      · rw [List.mem_singleton.mp h]
        exact isPlain_digitChar (Nat.mod_lt n (by decide))

theorem isPlain_of_mem_escape4 (n : Nat) : ∀ c ∈ escape4 n, Text.IsPlain c := by
  refine List.forall_mem_cons.mpr ⟨by decide, List.forall_mem_cons.mpr ⟨by decide, fun c hc => ?_⟩⟩
  rcases List.mem_append.mp hc with hc | hc
  · rw [List.eq_of_mem_replicate hc]
    decide
  · exact isPlain_of_mem_toDigits hc

theorem hexPadded_succ {width : Nat} (hwidth : 0 < width) (n : Nat) :
    Text.hexPadded (width + 1) n = Text.hexPadded width (n / 16) ++ [Nat.digitChar (n % 16)] := by
  unfold Text.hexPadded
  by_cases hn : n < 16
  · obtain ⟨w, rfl⟩ : ∃ w, width = w + 1 := ⟨width - 1, by omega⟩
    have hzero : n / 16 = 0 := Nat.div_eq_of_lt hn
    simp [Nat.toDigits_of_lt_base hn, hzero, Nat.mod_eq_of_lt hn, List.replicate_succ']
  · simp [Nat.toDigits_of_base_le (by decide : 1 < 16) (Nat.le_of_not_lt hn)]

/-- Four digits are read as the number they were written for. -/
theorem hex4?_hexPadded {n : Nat} (h : n < 0x10000) (rest : List Char) :
    hex4? (Text.hexPadded 4 n ++ rest) = some (n, rest) := by
  have hone : Text.hexPadded 1 (n / 16 / 16 / 16) = [Nat.digitChar (n / 16 / 16 / 16)] := by
    simp [Text.hexPadded, Nat.toDigits_of_lt_base (show n / 16 / 16 / 16 < 16 by omega)]
  have hdigits : Text.hexPadded 4 n = [Nat.digitChar (n / 16 / 16 / 16), Nat.digitChar (n / 16 / 16 % 16),
      Nat.digitChar (n / 16 % 16), Nat.digitChar (n % 16)] := by
    rw [hexPadded_succ (by decide), hexPadded_succ (by decide), hexPadded_succ (by decide), hone]
    rfl
  rw [hdigits]
  simp only [List.cons_append, List.nil_append, hex4?,
    hexValue?_digitChar (show n / 16 / 16 / 16 < 16 by omega),
    hexValue?_digitChar (Nat.mod_lt (n / 16 / 16) (by decide)),
    hexValue?_digitChar (Nat.mod_lt (n / 16) (by decide)),
    hexValue?_digitChar (Nat.mod_lt n (by decide))]
  have hvalue : ((n / 16 / 16 / 16 * 16 + n / 16 / 16 % 16) * 16 + n / 16 % 16) * 16 + n % 16 = n := by
    omega
  simp [hvalue]

theorem unicodeEscape_one {c : Char} (hc : c.toNat < 0x10000) {rest : List Char} (hrest : rest ≠ []) :
    unicodeEscape (Text.hexPadded 4 c.toNat ++ rest) = .ok (.ofChar c, rest) := by
  have hsurrogate := CodePoint.toNat_not_surrogate c
  have hhigh : ¬ (0xd800 ≤ c.toNat ∧ c.toNat ≤ 0xdbff) := by omega
  have hempty : rest.isEmpty = false := by simpa using hrest
  rw [unicodeEscape, hex4?_hexPadded hc]
  simp [hempty, hhigh, CodePoint.ofChar]

/-- Two halves of a pair are read as one code point. -/
theorem unicodeEscape_halves {n m : Nat} (hn : 0xd800 ≤ n ∧ n ≤ 0xdbff) (hm : 0xdc00 ≤ m ∧ m ≤ 0xdfff)
    {rest : List Char} (hrest : rest ≠ []) :
    unicodeEscape (Text.hexPadded 4 n ++ (escape4 m ++ rest)) =
      .ok (.ofNat (0x10000 + (n - 0xd800) * 0x400 + (m - 0xdc00)), rest) := by
  have hlength : ¬ (Text.hexPadded 4 m ++ rest).length ≤ 4 := by
    have hpos := List.length_pos_iff.mpr hrest
    simp only [Text.hexPadded, List.length_append, List.length_replicate]
    omega
  rw [unicodeEscape, hex4?_hexPadded (by omega)]
  simp only [escape4, List.cons_append, List.isEmpty_cons, Bool.false_eq_true, if_false, if_pos hn,
    if_neg hlength, hex4?_hexPadded (show m < 0x10000 by omega), if_pos hm]

theorem unicodeEscape_pair {c : Char} (hc : 0x10000 ≤ c.toNat) {rest : List Char} (hrest : rest ≠ []) :
    unicodeEscape (Text.hexPadded 4 (0xd800 + (c.toNat - 0x10000) / 0x400) ++
        (escape4 (0xdc00 + (c.toNat - 0x10000) % 0x400) ++ rest)) = .ok (.ofChar c, rest) := by
  have hlt := CodePoint.toNat_lt c
  -- the halves are named, or their sums would be computed wherever they occur
  obtain ⟨n, hn⟩ : ∃ n, n = 0xd800 + (c.toNat - 0x10000) / 0x400 := ⟨_, rfl⟩
  obtain ⟨m, hm⟩ : ∃ m, m = 0xdc00 + (c.toNat - 0x10000) % 0x400 := ⟨_, rfl⟩
  have hvalue : 0x10000 + (n - 0xd800) * 0x400 + (m - 0xdc00) = c.toNat := by omega
  rw [← hn, ← hm, unicodeEscape_halves (by omega) (by omega) hrest, hvalue, CodePoint.ofChar]

/-- A text does not begin with the escape of a second half. -/
def Unpaired (rest : List Char) : Prop :=
  ∀ tail, rest = '\\' :: 'u' :: tail →
    ∃ m more, hex4? tail = some (m, more) ∧ ¬ (0xdc00 ≤ m ∧ m ≤ 0xdfff)

/-- The escape of a surrogate is read as this surrogate, unless it is a first half and a second follows. -/
theorem unicodeEscape_surrogate {p : CodePoint} (hp : p.isHigh = true ∨ p.isLow = true) {rest : List Char}
    (hrest : rest ≠ []) (hunpaired : p.isHigh = true → Unpaired rest) :
    unicodeEscape (Text.hexPadded 4 p.value ++ rest) = .ok (p, rest) := by
  have hempty : rest.isEmpty = false := by simpa using hrest
  simp only [CodePoint.isHigh, CodePoint.isLow, Bool.and_eq_true, decide_eq_true_eq] at hp hunpaired
  rw [unicodeEscape, hex4?_hexPadded (by omega)]
  simp only [hempty, Bool.false_eq_true, if_false, CodePoint.ofNat_value]
  by_cases hhigh : 0xd800 ≤ p.value ∧ p.value ≤ 0xdbff
  · rw [if_pos hhigh]
    split
    · next tail =>
      obtain ⟨m, more, hread, hm⟩ := hunpaired hhigh tail rfl
      simp [hread, hm]
    · rfl
  · rw [if_neg hhigh]

/-! ## Characters -/

/-- The forms of characters: a letter after a backslash, the character itself, its number, or the numbers
of a pair. -/
inductive Form (c : Char) : List Char → Prop
  | letter {e : Char} (he : e ≠ 'u') (h : simpleEscape? e = some c) : Form c ['\\', e]
  | plain (hquote : c ≠ '"') (hslash : c ≠ '\\') (h : Text.IsPlain c) : Form c [c]
  | number (h : c.toNat < 0x10000) : Form c (escape4 c.toNat)
  | pair (h : 0x10000 ≤ c.toNat) :
      Form c (escape4 (0xd800 + (c.toNat - 0x10000) / 0x400) ++
        escape4 (0xdc00 + (c.toNat - 0x10000) % 0x400))

theorem writeChar_form (c : Char) : Form c (writeChar c) := by
  have hletter : ∀ {d e : Char}, e ≠ 'u' → simpleEscape? e = some d → c = d → Form c ['\\', e] := by
    rintro d e he h rfl
    exact .letter he h
  unfold writeChar
  split
  · exact hletter (by decide) rfl ‹_›
  · next hquote =>
    split
    · exact hletter (by decide) rfl ‹_›
    · next hslash =>
      split
      · exact hletter (by decide) rfl ‹_›
      split
      · exact hletter (by decide) rfl ‹_›
      split
      · exact hletter (by decide) rfl ‹_›
      split
      · exact hletter (by decide) rfl ‹_›
      split
      · exact hletter (by decide) rfl ‹_›
      split
      · exact .plain hquote hslash ‹_›
      split
      · exact .number ‹_›
      · exact .pair (Nat.le_of_not_lt ‹_›)

/-- An escape by number is read as the code point that it is read as by itself. -/
theorem stringBody_unicode (start fuel : Nat) (read : List CodePoint) {s rest : List Char} {p : CodePoint}
    (h : unicodeEscape s = .ok (p, rest)) :
    stringBody start (fuel + 1) read ('\\' :: 'u' :: s) = stringBody start fuel (p :: read) rest := by
  simp [stringBody, h, bind, Except.bind]

/-- The form of a character is read as this character. -/
theorem stringBody_writeChar (start fuel : Nat) (read : List CodePoint) (c : Char) {rest : List Char}
    (hrest : rest ≠ []) :
    stringBody start (fuel + 1) read (writeChar c ++ rest) =
      stringBody start fuel (.ofChar c :: read) rest := by
  have hform := writeChar_form c
  generalize writeChar c = form at hform ⊢
  cases hform with
  | letter he h => simp [stringBody, h]
  | plain hquote hslash h => simp [stringBody, hquote, hslash, Nat.not_lt.mpr h.1]
  | number h => exact stringBody_unicode start fuel read (unicodeEscape_one h hrest)
  | pair h =>
    rw [List.append_assoc, escape4, List.cons_append, List.cons_append]
    exact stringBody_unicode start fuel read (unicodeEscape_pair h hrest)

theorem isPlain_of_simpleEscape? {e c : Char} (h : simpleEscape? e = some c) : Text.IsPlain e := by
  unfold simpleEscape? at h
  split at h
  all_goals first | decide | cases h

/-- Forms are made of plain characters. -/
theorem isPlain_of_mem_writeChar (c : Char) : ∀ d ∈ writeChar c, Text.IsPlain d := by
  have hform := writeChar_form c
  generalize writeChar c = form at hform ⊢
  cases hform with
  | letter he h =>
    exact List.forall_mem_cons.mpr ⟨by decide, List.forall_mem_singleton.mpr (isPlain_of_simpleEscape? h)⟩
  | plain hquote hslash h => exact List.forall_mem_singleton.mpr h
  | number h => exact isPlain_of_mem_escape4 _
  | pair h =>
    exact List.forall_mem_append.mpr ⟨isPlain_of_mem_escape4 _, isPlain_of_mem_escape4 _⟩

theorem writeChar_ne_nil (c : Char) : writeChar c ≠ [] := by
  have hform := writeChar_form c
  generalize writeChar c = form at hform ⊢
  cases hform <;> exact List.cons_ne_nil _ _

theorem unpaired_of_ne {d : Char} (hd : d ≠ '\\') (rest : List Char) : Unpaired (d :: rest) := by
  intro tail h
  exact absurd (List.cons.inj h).1 hd

theorem unpaired_escape4 {n : Nat} (hn : n < 0x10000) (hlow : ¬ (0xdc00 ≤ n ∧ n ≤ 0xdfff)) (rest : List Char) :
    Unpaired (escape4 n ++ rest) := by
  intro tail h
  simp only [escape4, List.cons_append, List.cons.injEq, true_and] at h
  exact ⟨n, rest, h ▸ hex4?_hexPadded hn rest, hlow⟩

/-- No form of a character begins like the escape of a second half. -/
theorem unpaired_writeChar (c : Char) (rest : List Char) : Unpaired (writeChar c ++ rest) := by
  have hlt := CodePoint.toNat_lt c
  have hsurrogate := CodePoint.toNat_not_surrogate c
  have hform := writeChar_form c
  generalize writeChar c = form at hform ⊢
  cases hform with
  | letter he h =>
    intro tail heq
    exact absurd (List.cons.inj (List.cons.inj heq).2).1 he
  | plain hquote hslash h => exact unpaired_of_ne hslash rest
  | number h => exact unpaired_escape4 h (by omega) rest
  | pair h =>
    rw [List.append_assoc]
    exact unpaired_escape4 (by omega) (by omega) _

/-! ## Code points -/

/-- A code point is a character, written in its form, or a surrogate, written by its number. -/
theorem writePoint_cases (p : CodePoint) :
    (∃ c, p = .ofChar c ∧ writePoint p = writeChar c) ∨
      (p.isHigh = true ∨ p.isLow = true) ∧ writePoint p = escape4 p.value := by
  by_cases hp : (p.isHigh || p.isLow) = true
  · refine .inr ⟨?_, if_pos hp⟩
    simpa using hp
  · refine .inl ⟨p.toChar, (CodePoint.ofChar_toChar (by simpa using hp)).symm, if_neg hp⟩

theorem value_lt_of_surrogate {p : CodePoint} (hp : p.isHigh = true ∨ p.isLow = true) :
    p.value < 0x10000 := by
  simp only [CodePoint.isHigh, CodePoint.isLow, Bool.and_eq_true, decide_eq_true_eq] at hp
  omega

/-- The form of a code point is read as this code point, unless it is a first half and a second follows. -/
theorem stringBody_writePoint (start fuel : Nat) (read : List CodePoint) {p : CodePoint} {rest : List Char}
    (hrest : rest ≠ []) (hunpaired : p.isHigh = true → Unpaired rest) :
    stringBody start (fuel + 1) read (writePoint p ++ rest) = stringBody start fuel (p :: read) rest := by
  rcases writePoint_cases p with ⟨c, rfl, hform⟩ | ⟨hp, hform⟩
  · rw [hform]
    exact stringBody_writeChar start fuel read c hrest
  · rw [hform, escape4, List.cons_append, List.cons_append]
    exact stringBody_unicode start fuel read (unicodeEscape_surrogate hp hrest hunpaired)

theorem unpaired_writePoint {p : CodePoint} (hp : p.isLow = false) (rest : List Char) :
    Unpaired (writePoint p ++ rest) := by
  rcases writePoint_cases p with ⟨c, rfl, hform⟩ | ⟨hsurrogate, hform⟩
  · rw [hform]
    exact unpaired_writeChar c rest
  · rw [hform]
    refine unpaired_escape4 (value_lt_of_surrogate hsurrogate) ?_ rest
    simpa [CodePoint.isLow] using hp

theorem isPlain_of_mem_writePoint (p : CodePoint) : ∀ d ∈ writePoint p, Text.IsPlain d := by
  rcases writePoint_cases p with ⟨c, -, hform⟩ | ⟨-, hform⟩
  · rw [hform]
    exact isPlain_of_mem_writeChar c
  · rw [hform]
    exact isPlain_of_mem_escape4 _

theorem writePoint_ne_nil (p : CodePoint) : writePoint p ≠ [] := by
  rcases writePoint_cases p with ⟨c, -, hform⟩ | ⟨-, hform⟩
  · rw [hform]
    exact writeChar_ne_nil c
  · simp [hform, escape4]

/-! ## Strings -/

theorem length_le_flatMap_writePoint (ps : List CodePoint) : ps.length ≤ (ps.flatMap writePoint).length := by
  induction ps with
  | nil => exact Nat.le_refl _
  | cons p rest ih =>
    have hp : 0 < (writePoint p).length := List.length_pos_iff.mpr (writePoint_ne_nil p)
    rw [List.flatMap_cons, List.length_append, List.length_cons]
    omega

/-- The forms of code points up to a quote are read as these code points, if no two of them make a pair. -/
theorem stringBody_flatMap (start : Nat) (ps : List CodePoint) (t : List Char) (fuel : Nat)
    (read : List CodePoint) (hps : CodePoint.isPairless ps = true) (hfuel : ps.length < fuel) :
    stringBody start fuel read (ps.flatMap writePoint ++ '"' :: t) = .ok (read.reverse ++ ps, t) := by
  induction ps generalizing fuel read with
  | nil =>
    obtain ⟨fuel, rfl⟩ : ∃ n, fuel = n + 1 := ⟨fuel - 1, by omega⟩
    simp [stringBody]
  | cons p rest ih =>
    obtain ⟨fuel, rfl⟩ : ∃ n, fuel = n + 1 := ⟨fuel - 1, by omega⟩
    have hrest : CodePoint.isPairless rest = true ∧
        (p.isHigh = true → Unpaired (rest.flatMap writePoint ++ '"' :: t)) := by
      cases rest with
      | nil => exact ⟨rfl, fun _ => unpaired_of_ne (by decide) t⟩
      | cons q rest =>
        simp only [CodePoint.isPairless, Bool.and_eq_true, Bool.not_eq_true', Bool.and_eq_false_iff] at hps
        refine ⟨hps.2, fun hhigh => ?_⟩
        have hlow : q.isLow = false := hps.1.resolve_left (by simp [hhigh])
        rw [List.flatMap_cons, List.append_assoc]
        exact unpaired_writePoint hlow _
    have hread := ih fuel (p :: read) hrest.1 (by simpa using hfuel)
    rw [List.flatMap_cons, List.append_assoc, stringBody_writePoint start fuel read (by simp) hrest.2, hread]
    simp

section

variable {τ : Type} [IsText τ]

/-- A text is read back as it was written: nowhere in it a first half stands directly before a second. -/
def Pairless (t : τ) : Prop := CodePoint.isPairless (IsText.points t) = true

/-- A text with no pairs is read back up to its closing quote. -/
theorem stringBody_writeString {t : τ} (ht : Pairless t) (rest : List Char) :
    ∃ body, writeString t ++ rest = '"' :: body ∧
      ∀ start, stringBody start ('"' :: body).length [] body = .ok (IsText.points t, rest) := by
  refine ⟨(IsText.points t).flatMap writePoint ++ '"' :: rest, by simp [writeString], fun start => ?_⟩
  have hlength := length_le_flatMap_writePoint (IsText.points t)
  rw [stringBody_flatMap start (IsText.points t) rest _ _ ht]
  · simp
  · simp only [List.length_cons, List.length_append]
    omega

theorem isPlain_of_mem_writeString (t : τ) : ∀ c ∈ writeString t, Text.IsPlain c := by
  refine List.forall_mem_cons.mpr ⟨by decide, List.forall_mem_append.mpr ⟨?_, Text.isPlain_of_all rfl⟩⟩
  intro d hd
  obtain ⟨p, -, hp⟩ := List.mem_flatMap.mp hd
  exact isPlain_of_mem_writePoint p d hp

end

theorem isPairless_ofChar (s : List Char) : CodePoint.isPairless (s.map CodePoint.ofChar) = true := by
  induction s with
  | nil => rfl
  | cons c rest ih =>
    cases rest with
    | nil => rfl
    | cons d rest =>
      have hhigh : (CodePoint.ofChar c).isHigh = false :=
        (Bool.or_eq_false_iff.mp (CodePoint.isSurrogate_ofChar c)).1
      simpa [CodePoint.isPairless, hhigh] using ih

/-- A `String` has no surrogates at all. -/
theorem pairless_string (s : String) : Pairless s := isPairless_ofChar s.toList

theorem pairless_ofString {τ : Type} [IsText τ] (s : String) : Pairless (IsText.ofString s : τ) := by
  rw [Pairless, IsText.points_ofString]
  exact isPairless_ofChar s.toList

end Polyscan.Json
