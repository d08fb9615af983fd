import Mathlib.Data.List.TakeWhile
import Polyscan.Json.Reader
import Polyscan.Json.Writer
import Polyscan.Proofs.Text.Line

/-!
Numbers and words in notation. They are read in the same way wherever one ends, since what may follow a
value belongs to neither; whole numbers of not too many digits are read back from their digits.
-/
namespace Polyscan.Json

/-! ## Numbers -/

/-- What may follow a value. -/
def Closes (t : List Char) : Prop := ∀ c ∈ t.head?, c = ',' ∨ c = ']' ∨ c = '\x7d'

theorem closes_nil : Closes [] := fun _ h => nomatch h

theorem takeWhile_append_of_closes {p : Char → Bool} {t : List Char} (ht : Closes t)
    (hp : p ',' = false ∧ p ']' = false ∧ p '\x7d' = false) (s : List Char) :
    (s ++ t).takeWhile p = s.takeWhile p ∧ (s ++ t).dropWhile p = s.dropWhile p ++ t := by
  induction s with
  | nil =>
    cases t with
    | nil => exact ⟨rfl, rfl⟩
    | cons c rest =>
      have hc : p c = false := by
        rcases ht c rfl with rfl | rfl | rfl
        · exact hp.1
        · exact hp.2.1
        · exact hp.2.2
      simp [hc]
  | cons c rest ih =>
    rw [List.cons_append, List.takeWhile_cons, List.takeWhile_cons, List.dropWhile_cons,
      List.dropWhile_cons]
    split
    · exact ⟨congrArg _ ih.1, ih.2⟩
    · exact ⟨rfl, rfl⟩

theorem digits_append {t : List Char} (ht : Closes t) (s : List Char) :
    (s ++ t).takeWhile isAsciiDigit = s.takeWhile isAsciiDigit ∧
      (s ++ t).dropWhile isAsciiDigit = s.dropWhile isAsciiDigit ++ t :=
  takeWhile_append_of_closes ht (by decide) s

theorem wholePart?_eq_some {s ds r : List Char} (h : wholePart? s = some (ds, r)) :
    ∃ d rest, s = d :: rest ∧ isAsciiDigit d = true := by
  unfold wholePart? at h
  split at h
  · exact ⟨_, _, rfl, rfl⟩
  · cases s with
    | nil => cases h
    | cons d rest =>
      refine ⟨d, rest, rfl, ?_⟩
      cases hd : isAsciiDigit d with
      | true => rfl
      | false => simp [hd] at h

theorem wholePart?_append {s ds r t : List Char} (ht : Closes t) (h : wholePart? s = some (ds, r)) :
    wholePart? (s ++ t) = some (ds, r ++ t) := by
  obtain ⟨d, rest, rfl, -⟩ := wholePart?_eq_some h
  by_cases hzero : d = '0'
  · subst hzero
    simp only [wholePart?, Option.some.injEq, Prod.mk.injEq] at h
    obtain ⟨rfl, rfl⟩ := h
    rfl
  · obtain ⟨htake, hdrop⟩ := digits_append ht (d :: rest)
    rw [wholePart?] at h ⊢
    · rw [htake, hdrop]
      split at h
      · cases h
      · cases h
        rfl
    all_goals simpa using hzero

theorem closes_head_ne {t : List Char} (ht : Closes t) {c : Char} {rest : List Char} (h : t = c :: rest)
    {d : Char} (hd : d ≠ ',' ∧ d ≠ ']' ∧ d ≠ '\x7d') : c ≠ d := by
  subst h
  rintro rfl
  rcases ht c rfl with h | h | h
  · exact hd.1 h
  · exact hd.2.1 h
  · exact hd.2.2 h

theorem fractionPart_of_closes {t : List Char} (ht : Closes t) : fractionPart t = ([], t) := by
  cases t with
  | nil => rfl
  | cons c rest =>
    have hc : c ≠ '.' := closes_head_ne ht rfl (by decide)
    rw [fractionPart]
    simpa using hc

theorem fractionPart_append {t : List Char} (ht : Closes t) (s : List Char) :
    fractionPart (s ++ t) = ((fractionPart s).1, (fractionPart s).2 ++ t) := by
  cases s with
  | nil => exact fractionPart_of_closes ht
  | cons c rest =>
    by_cases hc : c = '.'
    · subst hc
      obtain ⟨htake, hdrop⟩ := digits_append ht rest
      simp only [List.cons_append, fractionPart, htake, hdrop]
      split <;> rfl
    · have hstop : ∀ rest, fractionPart (c :: rest) = ([], c :: rest) := by
        intro rest
        rw [fractionPart]
        simpa using hc
      rw [List.cons_append, hstop, hstop, List.cons_append]

theorem exponentSign_append {t : List Char} (ht : Closes t) (s : List Char) :
    exponentSign (s ++ t) = ((exponentSign s).1, (exponentSign s).2 ++ t) := by
  have hplain : ∀ c rest, c ≠ '-' → c ≠ '+' → exponentSign (c :: rest) = (false, c :: rest) := by
    intro c rest hminus hplus
    rw [exponentSign]
    · simpa using hminus
    · simpa using hplus
  cases s with
  | nil =>
    cases t with
    | nil => rfl
    | cons c rest =>
      exact hplain c rest (closes_head_ne ht rfl (by decide)) (closes_head_ne ht rfl (by decide))
  | cons c rest =>
    by_cases hminus : c = '-'
    · subst hminus
      rfl
    · by_cases hplus : c = '+'
      · subst hplus
        rfl
      · rw [List.cons_append, hplain c _ hminus hplus, hplain c _ hminus hplus, List.cons_append]

theorem exponentPart_append {t : List Char} (ht : Closes t) (s : List Char) :
    exponentPart (s ++ t) = ((exponentPart s).1, (exponentPart s).2 ++ t) := by
  have hstop : ∀ e rest, ¬ (e = 'e' ∨ e = 'E') → exponentPart (e :: rest) = (none, e :: rest) :=
    fun e rest he => by rw [exponentPart, if_neg he]
  cases s with
  | nil =>
    cases t with
    | nil => rfl
    | cons c rest =>
      refine hstop c rest ?_
      rintro (h | h)
      · exact closes_head_ne ht rfl (by decide) h
      · exact closes_head_ne ht rfl (by decide) h
  | cons e rest =>
    by_cases he : e = 'e' ∨ e = 'E'
    · obtain ⟨htake, hdrop⟩ := digits_append ht (exponentSign rest).2
      simp only [List.cons_append, exponentPart, if_pos he, exponentSign_append ht, htake, hdrop]
      split <;> rfl
    · rw [List.cons_append, hstop e _ he, hstop e _ he, List.cons_append]

section

variable {σ τ : Type}

/-- A number is read in the same way if something follows that does not belong to it. -/
theorem number_append {negative : Bool} {start s r t : List Char} {v : Json τ} (ht : Closes t)
    (h : number negative start s = .ok (v, r)) (start' : List Char) :
    number negative start' (s ++ t) = .ok (v, r ++ t) := by
  unfold number at h ⊢
  cases hwhole : wholePart? s with
  | none =>
    rw [hwhole] at h
    cases h
  | some x =>
    obtain ⟨whole, rest⟩ := x
    rw [hwhole] at h
    rw [wholePart?_append ht hwhole]
    simp only [fractionPart_append ht, exponentPart_append ht] at h ⊢
    split at h
    · next hplain =>
      rw [if_pos hplain]
      split at h
      · cases h
      · next hshort =>
        rw [if_neg hshort]
        cases h
        rfl
    · next hreal =>
      rw [if_neg hreal]
      cases h
      rfl

theorem number_head {negative : Bool} {start s r : List Char} {v : Json τ}
    (h : number negative start s = .ok (v, r)) : ∃ d rest, s = d :: rest ∧ isAsciiDigit d = true := by
  unfold number at h
  split at h
  · cases h
  · next hwhole => exact wholePart?_eq_some hwhole

theorem afterWord?_of_ne {d c : Char} (h : d ≠ c) (word s : List Char) :
    afterWord? (d :: word) (c :: s) = none := by
  simp [afterWord?, h]

theorem afterWord?_eq_some {word s r : List Char} (h : afterWord? word s = some r) : s = word ++ r := by
  unfold afterWord? at h
  split at h
  · next hprefix =>
    obtain ⟨rest, rfl⟩ := List.isPrefixOf_iff_prefix.mp hprefix
    cases h
    simp
  · cases h

/-- What begins like no word and has no sign is read as a number. -/
theorem scalar_eq_number {c : Char} (hc : c ∉ ['n', 't', 'f', 'N', 'I', '-']) (rest : List Char) :
    (scalar (c :: rest) : Except ReadError (Json τ × List Char)) = number false (c :: rest) (c :: rest) := by
  have hne : ∀ d ∈ ['n', 't', 'f', 'N', 'I', '-'], d ≠ c := fun d hd hdc => hc (hdc ▸ hd)
  have hword : ∀ d word, d ∈ ['n', 't', 'f', 'N', 'I', '-'] → afterWord? (d :: word) (c :: rest) = none :=
    fun d word hd => afterWord?_of_ne (hne d hd) word rest
  unfold scalar
  rw [show afterWord? "null".toList (c :: rest) = none from hword 'n' _ (by decide),
    show afterWord? "true".toList (c :: rest) = none from hword 't' _ (by decide),
    show afterWord? "false".toList (c :: rest) = none from hword 'f' _ (by decide),
    show afterWord? "NaN".toList (c :: rest) = none from hword 'N' _ (by decide),
    show afterWord? "Infinity".toList (c :: rest) = none from hword 'I' _ (by decide),
    show afterWord? "-Infinity".toList (c :: rest) = none from hword '-' _ (by decide)]
  dsimp only
  split
  · next heq => exact absurd (List.cons.inj heq).1.symm (hne '-' (by decide))
  · rfl

theorem scalar_digit {d : Char} (hd : isAsciiDigit d = true) (rest : List Char) :
    (scalar (d :: rest) : Except ReadError (Json τ × List Char)) = number false (d :: rest) (d :: rest) := by
  refine scalar_eq_number (fun hmem => ?_) rest
  simp only [List.mem_cons, List.not_mem_nil, or_false] at hmem
  rcases hmem with rfl | rfl | rfl | rfl | rfl | rfl <;> cases hd

theorem scalar_minus {d : Char} (hd : isAsciiDigit d = true) (rest : List Char) :
    (scalar ('-' :: d :: rest) : Except ReadError (Json τ × List Char)) =
      number true ('-' :: d :: rest) (d :: rest) := by
  have hI : 'I' ≠ d := by
    rintro rfl
    cases hd
  have hinfinity : afterWord? "-Infinity".toList ('-' :: d :: rest) = none := by
    simp [afterWord?, hI]
  unfold scalar
  rw [hinfinity]
  rfl

/-- The words that are values. -/
def words : List (List Char × Json τ) :=
  [("null".toList, .null), ("true".toList, .bool true), ("false".toList, .bool false),
    ("NaN".toList, .real .nan), ("Infinity".toList, .real (.infinity false)),
    ("-Infinity".toList, .real (.infinity true))]

theorem scalar_word {word : List Char} {v : Json τ} (h : (word, v) ∈ words) (t : List Char) :
    scalar (word ++ t) = .ok (v, t) := by
  simp only [words, List.mem_cons, List.not_mem_nil, or_false, Prod.mk.injEq] at h
  rcases h with ⟨rfl, rfl⟩ | ⟨rfl, rfl⟩ | ⟨rfl, rfl⟩ | ⟨rfl, rfl⟩ | ⟨rfl, rfl⟩ | ⟨rfl, rfl⟩ <;> rfl

/-- A value that is neither string, list nor object is a word or a number. -/
theorem scalar_cases {s r : List Char} {v : Json τ} (h : scalar s = .ok (v, r)) :
    (∃ word, (word, v) ∈ words ∧ s = word ++ r) ∨
      (∃ rest, s = '-' :: rest ∧ number true s rest = .ok (v, r)) ∨
      number false s s = .ok (v, r) := by
  have hword : ∀ (word : List Char) {w : Json τ} {rest : List Char}, (word, w) ∈ words →
      afterWord? word s = some rest → (Except.ok (w, rest) : Except ReadError _) = .ok (v, r) →
        ∃ word, (word, v) ∈ words ∧ s = word ++ r := by
    intro word w rest hmem hafter heq
    cases heq
    exact ⟨word, hmem, afterWord?_eq_some hafter⟩
  unfold scalar at h
  split at h
  · exact .inl (hword "null".toList (by simp [words]) ‹_› h)
  split at h
  · exact .inl (hword "true".toList (by simp [words]) ‹_› h)
  split at h
  · exact .inl (hword "false".toList (by simp [words]) ‹_› h)
  split at h
  · exact .inl (hword "NaN".toList (by simp [words]) ‹_› h)
  split at h
  · exact .inl (hword "Infinity".toList (by simp [words]) ‹_› h)
  split at h
  · exact .inl (hword "-Infinity".toList (by simp [words]) ‹_› h)
  split at h
  · exact .inr (.inl ⟨_, rfl, h⟩)
  · exact .inr (.inr h)

theorem scalar_append {s r t : List Char} {v : Json τ} (ht : Closes t) (h : scalar s = .ok (v, r)) :
    scalar (s ++ t) = .ok (v, r ++ t) := by
  -- a number may begin like a word, but what follows its sign is a digit, which no word has there
  rcases scalar_cases h with ⟨word, hword, rfl⟩ | ⟨rest, rfl, hnumber⟩ | hnumber
  · rw [List.append_assoc]
    exact scalar_word hword _
  · obtain ⟨d, more, rfl, hd⟩ := number_head hnumber
    have happend := number_append ht hnumber ('-' :: d :: more ++ t)
    rw [List.cons_append, List.cons_append, scalar_minus hd]
    exact happend
  · obtain ⟨d, more, rfl, hd⟩ := number_head hnumber
    have happend := number_append ht hnumber (d :: more ++ t)
    rw [List.cons_append, scalar_digit hd]
    exact happend

/-- Doubles are read alike whatever the kind of text. -/
theorem number_real {negative : Bool} {start s r : List Char} {x : Double}
    (h : number negative start s = .ok ((.real x : Json σ), r)) :
    number negative start s = .ok ((.real x : Json τ), r) := by
  unfold number at h ⊢
  cases hwhole : wholePart? s with
  | none =>
    rw [hwhole] at h
    cases h
  | some y =>
    rw [hwhole] at h
    simp only at h ⊢
    split at h
    · split at h
      · cases h
      · cases h
    · next hreal =>
      rw [if_neg hreal]
      cases h
      rfl

theorem scalar_real {s r : List Char} {x : Double} (h : scalar s = .ok ((.real x : Json σ), r)) :
    scalar s = .ok ((.real x : Json τ), r) := by
  rcases scalar_cases h with ⟨word, hword, rfl⟩ | ⟨rest, rfl, hnumber⟩ | hnumber
  · refine scalar_word ?_ r
    simpa [words] using hword
  · obtain ⟨d, more, rfl, hd⟩ := number_head hnumber
    rw [scalar_minus hd]
    exact number_real hnumber
  · obtain ⟨d, more, rfl, hd⟩ := number_head hnumber
    rw [scalar_digit hd]
    exact number_real hnumber

/-! ## Whole numbers -/

theorem isAsciiDigit_of_mem_toDigits {n : Nat} {c : Char} (h : c ∈ Nat.toDigits 10 n) :
    isAsciiDigit c = true := by
  have hdigit := Char.isDigit_iff_toNat.mp (Nat.isDigit_of_mem_toDigits (by decide) (by decide) h)
  simpa [isAsciiDigit, Text.isAsciiDigit] using hdigit

theorem digitsValue_toDigits (n : Nat) : digitsValue (Nat.toDigits 10 n) = n := by
  have hvalue := @Nat.ofDigitChars_ten_toDigits n
  rw [Nat.ofDigitChars_eq_foldl] at hvalue
  simpa [digitsValue, Nat.mul_comm] using hvalue

/-- Only zero begins with a zero. -/
theorem toDigits_head {n : Nat} (hn : 0 < n) : ∃ d rest, Nat.toDigits 10 n = d :: rest ∧ d ≠ '0' := by
  induction n using Nat.strongRecOn with
  | ind n ih =>
    by_cases hsmall : n < 10
    · refine ⟨Nat.digitChar n, [], Nat.toDigits_of_lt_base hsmall, ?_⟩
      rw [Ne, Nat.digitChar_eq_zero]
      omega
    · obtain ⟨d, rest, heq, hd⟩ := ih (n / 10) (by omega) (by omega)
      refine ⟨d, rest ++ [Nat.digitChar (n % 10)], ?_, hd⟩
      rw [Nat.toDigits_of_base_le (by decide) (Nat.le_of_not_lt hsmall), heq, List.cons_append]

theorem wholePart?_toDigits (n : Nat) : wholePart? (Nat.toDigits 10 n) = some (Nat.toDigits 10 n, []) := by
  rcases Nat.eq_zero_or_pos n with rfl | hn
  · rfl
  · have htake : (Nat.toDigits 10 n).takeWhile isAsciiDigit = Nat.toDigits 10 n :=
      List.takeWhile_eq_self_iff.mpr fun c hc => isAsciiDigit_of_mem_toDigits hc
    have hdrop : (Nat.toDigits 10 n).dropWhile isAsciiDigit = [] :=
      List.dropWhile_eq_nil_iff.mpr fun c hc => isAsciiDigit_of_mem_toDigits hc
    obtain ⟨d, rest, heq, hd⟩ := toDigits_head hn
    rw [heq] at htake hdrop ⊢
    rw [wholePart?, htake, hdrop]
    simpa using hd

theorem number_toDigits (negative : Bool) (start : List Char) {n : Nat}
    (hn : (Nat.toDigits 10 n).length ≤ digitLimit) :
    number negative start (Nat.toDigits 10 n) = .ok ((.int (if negative then -n else n) : Json τ), []) := by
  rw [number, wholePart?_toDigits]
  simp [fractionPart, exponentPart, Nat.not_lt.mpr hn, digitsValue_toDigits]

/-- A whole number of not too many digits is read back. -/
theorem scalar_int [IsText τ] {n : Int} (hn : (Nat.toDigits 10 n.natAbs).length ≤ digitLimit) :
    scalar (write (.int n : Json τ)) = .ok ((.int n : Json τ), []) := by
  have hdigit : ∀ m : Nat, ∃ d rest, Nat.toDigits 10 m = d :: rest ∧ isAsciiDigit d = true := by
    intro m
    cases hm : Nat.toDigits 10 m with
    | nil => exact absurd hm Nat.toDigits_ne_nil
    | cons d rest => exact ⟨d, rest, rfl, isAsciiDigit_of_mem_toDigits (hm ▸ List.mem_cons_self)⟩
  rw [write, Int.toString_eq_repr, Int.repr_eq_if]
  split
  · next hnonneg =>
    obtain ⟨m, rfl⟩ := Int.eq_ofNat_of_zero_le hnonneg
    obtain ⟨d, rest, heq, hd⟩ := hdigit m
    have hread := number_toDigits (τ := τ) false (d :: rest) hn
    rw [Int.toNat_natCast, Nat.repr_eq_ofList_toDigits, String.toList_ofList]
    rw [Int.natAbs_natCast, heq] at hread
    rw [heq, scalar_digit hd, hread]
    rfl
  · next hneg =>
    obtain ⟨m, rfl⟩ : ∃ m : Nat, n = -m := ⟨n.natAbs, by omega⟩
    obtain ⟨d, rest, heq, hd⟩ := hdigit m
    rw [Int.natAbs_neg, Int.natAbs_natCast] at hn
    have hread := number_toDigits (τ := τ) true ('-' :: d :: rest) hn
    have hdigits : (Nat.repr m).toList = d :: rest := by
      rw [Nat.repr_eq_ofList_toDigits, String.toList_ofList, heq]
    rw [heq] at hread
    rw [Int.neg_neg, Int.toNat_natCast, String.toList_append, hdigits]
    exact (scalar_minus hd rest).trans hread

end

/-! ## Doubles -/

/-- The characters of numbers. -/
def isNumberChar (c : Char) : Bool := isAsciiDigit c || c ∈ ['+', '-', '.', 'e']

theorem isPlain_of_isNumberChar {c : Char} (h : isNumberChar c = true) : Text.IsPlain c := by
  rw [isNumberChar, Bool.or_eq_true] at h
  rcases h with h | h
  · simp only [isAsciiDigit, Text.isAsciiDigit, Bool.and_eq_true, decide_eq_true_eq] at h
    exact ⟨by omega, by omega⟩
  · have hsigns : ∀ d ∈ ['+', '-', '.', 'e'], Text.IsPlain d := Text.isPlain_of_all rfl
    exact hsigns c (of_decide_eq_true h)

theorem isNumberChar_of_mem_toDigits {n : Nat} {c : Char} (h : c ∈ Nat.toDigits 10 n) :
    isNumberChar c = true := by
  rw [isNumberChar, isAsciiDigit_of_mem_toDigits h, Bool.true_or]

theorem isNumberChar_of_mem_digitsPadded {width n : Nat} {c : Char} (h : c ∈ Double.digitsPadded width n) :
    isNumberChar c = true := by
  rcases List.mem_append.mp h with h | h
  · rw [List.eq_of_mem_replicate h]
    rfl
  · exact isNumberChar_of_mem_toDigits h

theorem isNumberChar_of_mem_signed {negative : Bool} {s : List Char}
    (hs : ∀ c ∈ s, isNumberChar c = true) :
    ∀ c ∈ (Double.signed negative s).toList, isNumberChar c = true := by
  intro c hc
  rw [Double.signed, String.toList_ofList] at hc
  split at hc
  · rcases List.mem_cons.mp hc with rfl | hc
    · rfl
    · exact hs c hc
  · exact hs c hc

theorem isNumberChar_of_mem_layout {digits : List Char} (hdigits : ∀ c ∈ digits, isNumberChar c = true)
    (scale : Int) : ∀ c ∈ Double.layout digits scale, isNumberChar c = true := by
  have hzeros : ∀ n : Nat, ∀ c ∈ List.replicate n '0', isNumberChar c = true :=
    fun n c hc => by
      rw [List.eq_of_mem_replicate hc]
      rfl
  have htake : ∀ n, ∀ c ∈ digits.take n, isNumberChar c = true :=
    fun n c hc => hdigits c (List.mem_of_mem_take hc)
  have hdrop : ∀ n, ∀ c ∈ digits.drop n, isNumberChar c = true :=
    fun n c hc => hdigits c (List.mem_of_mem_drop hc)
  unfold Double.layout
  dsimp only
  split
  · split
    · exact List.forall_mem_cons.mpr ⟨rfl, List.forall_mem_cons.mpr ⟨rfl,
        List.forall_mem_append.mpr ⟨hzeros _, hdigits⟩⟩⟩
    split
    · exact List.forall_mem_append.mpr
        ⟨List.forall_mem_append.mpr ⟨hdigits, hzeros _⟩, List.all_eq_true.mp rfl⟩
    · exact List.forall_mem_append.mpr ⟨htake _, List.forall_mem_cons.mpr ⟨rfl, hdrop _⟩⟩
  · refine List.forall_mem_append.mpr ⟨List.forall_mem_append.mpr ⟨htake 1, ?_⟩,
      List.forall_mem_cons.mpr ⟨rfl, List.forall_mem_cons.mpr ⟨?_, fun c hc =>
        isNumberChar_of_mem_digitsPadded hc⟩⟩⟩
    · split
      · exact fun _ hc => nomatch hc
      · exact List.forall_mem_cons.mpr ⟨rfl, hdrop 1⟩
    · split <;> rfl

/-- A number is written in digits, signs, points and the letter of exponents. -/
theorem isNumberChar_of_mem_text (negative : Bool) (m : Nat) (e : Int) :
    ∀ c ∈ (Double.text (.finite negative m e)).toList, isNumberChar c = true := by
  cases m with
  | zero => exact isNumberChar_of_mem_signed (List.all_eq_true.mp rfl)
  | succ m =>
    exact isNumberChar_of_mem_signed (isNumberChar_of_mem_layout
      (fun c hc => isNumberChar_of_mem_toDigits hc) _)

theorem isPlain_of_mem_writeReal (x : Double) : ∀ c ∈ writeReal x, Text.IsPlain c := by
  cases x with
  | nan => exact Text.isPlain_of_all rfl
  | infinity negative => cases negative <;> exact Text.isPlain_of_all rfl
  | finite negative m e =>
    exact fun c hc => isPlain_of_isNumberChar (isNumberChar_of_mem_text negative m e c hc)

theorem isPlain_of_mem_write_int {τ : Type} [IsText τ] (n : Int) :
    ∀ c ∈ write (.int n : Json τ), Text.IsPlain c := by
  have hdigits : ∀ m : Nat, ∀ c ∈ (Nat.repr m).toList, Text.IsPlain c := by
    intro m c hc
    rw [Nat.repr_eq_ofList_toDigits, String.toList_ofList] at hc
    exact isPlain_of_isNumberChar (isNumberChar_of_mem_toDigits hc)
  rw [write, Int.toString_eq_repr, Int.repr_eq_if]
  split
  · exact hdigits _
  · rw [String.toList_append]
    exact List.forall_mem_append.mpr ⟨Text.isPlain_of_all rfl, hdigits _⟩

end Polyscan.Json
