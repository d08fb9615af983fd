import Mathlib.Data.List.DropRight
import Polyscan.Text.Line
import Polyscan.Text.Utf8

/-!
Lines of visible ASCII characters. Their bytes spell them, and no character in them is taken for the end of
a line, whichever ends a reader knows. Where they are put behind other text, they go on with its last line if
nothing ended that.
-/
namespace Polyscan.Text

/-- A blank or a visible character of ASCII. -/
def IsPlain (c : Char) : Prop := 32 ≤ c.toNat ∧ c.toNat < 127

instance (c : Char) : Decidable (IsPlain c) := inferInstanceAs (Decidable (_ ∧ _))

theorem isPlain_of_all {s : List Char} (h : s.all (fun c => decide (IsPlain c)) = true) :
    ∀ c ∈ s, IsPlain c :=
  fun c hc => of_decide_eq_true (List.all_eq_true.mp h c hc)

theorem isPlain_ne_return {c : Char} (h : IsPlain c) : c ≠ '\r' := by
  rintro rfl
  exact absurd h (by decide)

/-! ## Bytes -/

theorem toListLoop_eq (b : ByteArray) (i : Nat) (read : Bytes) :
    ByteArray.toList.loop b i read = read.reverse ++ b.data.toList.drop i := by
  induction i, read using ByteArray.toList.loop.induct b with
  | case1 i read hi ih =>
    have hlength : i < b.data.toList.length := by simpa using hi
    have hbyte : b.get! i = b.data.toList[i] := by
      rw [ByteArray.get!, Array.getElem_toList]
      exact getElem!_pos b.data i (by simpa using hi)
    rw [ByteArray.toList.loop, if_pos hi, ih, List.drop_eq_getElem_cons hlength, hbyte]
    simp
  | case2 i read hi =>
    have hlength : b.data.toList.length ≤ i := by simpa using hi
    rw [ByteArray.toList.loop, if_neg hi, List.drop_eq_nil_of_le hlength, List.append_nil]

theorem encode_eq (s : String) : encode s = s.toByteArray.data.toList := by
  rw [encode, String.toUTF8_eq_toByteArray, ByteArray.toList, toListLoop_eq]
  rfl

theorem encode_append (s t : String) : encode (s ++ t) = encode s ++ encode t := by
  simp [encode_eq]

/-- The bytes of ASCII characters are their numbers. -/
theorem encode_ofList {s : List Char} (hs : ∀ c ∈ s, c.toNat < 128) :
    encode (String.ofList s) = s.map fun c => UInt8.ofNat c.toNat := by
  rw [encode_eq, String.toByteArray_ofList]
  induction s with
  | nil => rfl
  | cons c rest ih =>
    have hc : c.utf8Size = 1 :=
      Char.utf8Size_eq_one_iff.mpr (Nat.le_of_lt_succ (hs c List.mem_cons_self))
    rw [List.utf8Encode_cons, List.utf8Encode_singleton, String.utf8EncodeChar_eq_singleton hc,
      ByteArray.data_append, Array.toList_append, ih fun d hd => hs d (List.mem_cons_of_mem c hd)]
    rfl

theorem decodeFrom_ascii {s : List Char} (hs : ∀ c ∈ s, c.toNat < 128) (i : Nat) :
    decodeFrom i .fresh (s.map fun c => UInt8.ofNat c.toNat) = .ok s := by
  induction s generalizing i with
  | nil => rfl
  | cons c rest ih =>
    have hc := hs c List.mem_cons_self
    have hlead : leadByte? (UInt8.ofNat c.toNat) = some (0, 0, 0, c.toNat) := by
      have hnumber : (UInt8.ofNat c.toNat).toNat = c.toNat := by
        rw [UInt8.toNat_ofNat']
        omega
      rw [leadByte?, hnumber]
      exact if_pos hc
    rw [List.map_cons, decodeFrom, hlead]
    simp only
    rw [ih fun d hd => hs d (List.mem_cons_of_mem c hd), Char.ofNat_toNat]
    rfl

/-- ASCII characters are spelled by their bytes. -/
theorem decode_encode {s : List Char} (hs : ∀ c ∈ s, c.toNat < 128) :
    decode (encode (String.ofList s)) = .ok s := by
  rw [encode_ofList hs]
  exact decodeFrom_ascii hs 0

/-- What is read of bytes is read of them with more bytes behind. -/
theorem decodeFrom_append {a : Bytes} {s : List Char} {i : Nat} {state : Utf8State}
    (h : decodeFrom i state a = .ok s) (b : Bytes) :
    decodeFrom i state (a ++ b) = (decodeFrom (i + a.length) .fresh b).map (s ++ ·) := by
  -- a character in the middle takes the first byte behind it, so the induction is on the bytes
  induction a generalizing i state s with
  | nil =>
    cases state with
    | fresh =>
      cases h
      rw [List.nil_append, List.length_nil, Nat.add_zero]
      cases decodeFrom i .fresh b <;> rfl
    | inside start first owed lo hi value => cases h
  | cons c rest ih =>
    have hmap : ∀ {j d}, (decodeFrom j .fresh rest).map (d :: ·) = .ok s → j = i + 1 →
        (decodeFrom j .fresh (rest ++ b)).map (d :: ·) =
          (decodeFrom (i + (c :: rest).length) .fresh b).map (s ++ ·) := by
      rintro j d hs rfl
      cases hrest : decodeFrom (i + 1) .fresh rest with
      | error e =>
        rw [hrest] at hs
        cases hs
      | ok more =>
        rw [hrest] at hs
        cases hs
        rw [ih hrest, List.length_cons, Nat.add_right_comm, Nat.add_assoc]
        cases decodeFrom (i + (rest.length + 1)) .fresh b <;> rfl
    have hnext : ∀ {state}, decodeFrom (i + 1) state rest = .ok s →
        decodeFrom (i + 1) state (rest ++ b) =
          (decodeFrom (i + (c :: rest).length) .fresh b).map (s ++ ·) := by
      intro state hs
      rw [ih hs, List.length_cons, Nat.add_right_comm, Nat.add_assoc]
    cases state with
    | fresh =>
      rw [decodeFrom] at h
      rw [List.cons_append, decodeFrom]
      split at h
      · cases h
      · exact hmap h rfl
      · exact hnext h
    | inside start first owed lo hi value =>
      rw [decodeFrom] at h
      rw [List.cons_append, decodeFrom]
      split at h
      · next hrange =>
        rw [if_pos hrange]
        dsimp only at h ⊢
        split at h
        · next hlast =>
          rw [if_pos hlast]
          exact hmap h rfl
        · next hmore =>
          rw [if_neg hmore]
          exact hnext h
      · cases h

/-- Characters of ASCII can be put behind any text. -/
theorem decode_append {a : Bytes} {s t : List Char} (h : decode a = .ok s)
    (ht : ∀ c ∈ t, c.toNat < 128) : decode (a ++ encode (String.ofList t)) = .ok (s ++ t) := by
  rw [decode, decodeFrom_append h, encode_ofList ht, decodeFrom_ascii ht]
  rfl

/-! ## Line ends -/

theorem uniformNewlines_eq_self {s : List Char} (hs : '\r' ∉ s) : uniformNewlines s = s := by
  induction s with
  | nil => rfl
  | cons c rest ih =>
    rw [List.mem_cons, not_or] at hs
    have hc : c ≠ '\r' := Ne.symm hs.1
    rw [uniformNewlines, if_neg hc, ih hs.2]
    exact fun _ heq => absurd heq hc

theorem return_notMem_uniformNewlines (s : List Char) : '\r' ∉ uniformNewlines s := by
  induction s using uniformNewlines.induct with
  | case1 => exact List.not_mem_nil
  | case2 rest ih => simp [uniformNewlines, ih]
  | case3 c rest hpair ih =>
    rw [uniformNewlines, List.mem_cons, not_or]
    · refine ⟨?_, ih⟩
      split
      · decide
      · next hc => exact Ne.symm hc
    · exact hpair

/-- Texts are made uniform apart, unless a line end is cut in two. -/
theorem uniformNewlines_append (s : List Char) {t : List Char} (ht : t.head? ≠ some '\n') :
    uniformNewlines (s ++ t) = uniformNewlines s ++ uniformNewlines t := by
  induction s using uniformNewlines.induct with
  | case1 => rfl
  | case2 rest ih => simp [uniformNewlines, ih]
  | case3 c rest hpair ih =>
    have hpair' : ∀ more, c = '\r' → rest ++ t = '\n' :: more → False := by
      intro more hc hmore
      cases rest with
      | nil =>
        rw [List.nil_append] at hmore
        exact ht (by rw [hmore]; rfl)
      | cons d rest =>
        cases hmore
        exact hpair _ hc rfl
    rw [List.cons_append, uniformNewlines, uniformNewlines, ih, List.cons_append]
    · exact hpair
    · exact hpair'

theorem isLineBreak_plain {c : Char} (h : IsPlain c) : isLineBreak c = false := by
  obtain ⟨hlow, hhigh⟩ := h
  have hreturn : ¬ c.toNat ≤ 13 := by omega
  have hcontrol : ¬ c.toNat ≤ 30 := by omega
  have hnext : c.toNat ≠ 0x85 := by omega
  have hline : c.toNat ≠ 0x2028 := by omega
  have hparagraph : c.toNat ≠ 0x2029 := by omega
  simp [isLineBreak, hreturn, hcontrol, hnext, hline, hparagraph]

/-- Characters that break no line belong to one, up to a newline. -/
theorem linesFrom_newline {s : List Char} (hs : ∀ c ∈ s, isLineBreak c = false) (line rest : List Char) :
    linesFrom line (s ++ '\n' :: rest) = (line.reverse ++ s) :: linesFrom [] rest := by
  induction s generalizing line with
  | nil => simp [linesFrom, show isLineBreak '\n' = true from rfl]
  | cons c more ih =>
    have hc := hs c List.mem_cons_self
    rw [List.cons_append, linesFrom, hc, if_neg Bool.false_ne_true,
      ih (fun d hd => hs d (List.mem_cons_of_mem c hd)) (c :: line)]
    · simp
    · rintro more rfl
      cases hc

/-- Lines that are written one after another are read one after another. -/
theorem lines_flatMap {ls : List (List Char)} (hls : ∀ l ∈ ls, ∀ c ∈ l, IsPlain c) :
    lines (String.ofList (ls.flatMap (· ++ ['\n']))) = ls.map String.ofList := by
  rw [lines, String.toList_ofList]
  induction ls with
  | nil => rfl
  | cons l rest ih =>
    have hrest := ih fun m hm => hls m (List.mem_cons_of_mem l hm)
    rw [List.flatMap_cons, List.append_assoc, List.singleton_append,
      linesFrom_newline fun c hc => isLineBreak_plain (hls l List.mem_cons_self c hc)]
    simp [hrest]

/-! ## The last line -/

/-- A break ends a line for good: what stands behind it is read on its own. -/
theorem linesFrom_append_break {s : List Char} (hs : '\r' ∉ s) {b : Char} (hb : isLineBreak b = true)
    (hreturn : b ≠ '\r') (line t : List Char) :
    linesFrom line (s ++ b :: t) = linesFrom line (s ++ [b]) ++ linesFrom [] t := by
  have hstep : ∀ {c : Char} (line rest : List Char), c ≠ '\r' → linesFrom line (c :: rest) =
      if isLineBreak c then line.reverse :: linesFrom [] rest else linesFrom (c :: line) rest := by
    intro c line rest hc
    rw [linesFrom]
    exact fun _ heq => absurd heq hc
  induction s generalizing line with
  | nil =>
    rw [List.nil_append, List.nil_append, hstep _ _ hreturn, hstep _ _ hreturn, if_pos hb, if_pos hb]
    rfl
  | cons c rest ih =>
    rw [List.mem_cons, not_or] at hs
    rw [List.cons_append, List.cons_append, hstep _ _ (Ne.symm hs.1), hstep _ _ (Ne.symm hs.1)]
    split
    · rw [ih hs.2, List.cons_append]
    · exact ih hs.2 _

theorem linesFrom_unbroken {s : List Char} (hs : ∀ c ∈ s, isLineBreak c = false) (line : List Char) :
    linesFrom line s = if (line.reverse ++ s).isEmpty then [] else [line.reverse ++ s] := by
  induction s generalizing line with
  | nil => simp [linesFrom]
  | cons c rest ih =>
    have hc := hs c List.mem_cons_self
    rw [linesFrom, hc, if_neg Bool.false_ne_true, ih fun d hd => hs d (List.mem_cons_of_mem c hd),
      List.reverse_cons, List.append_assoc, List.singleton_append]
    rintro more rfl
    cases hc

/-- The part of a text up to its last break. -/
def finished (s : List Char) : List Char := (uniformNewlines s).rdropWhile fun c => !isLineBreak c

/-- The part of a text behind its last break: a line that nothing ends. -/
def unfinished (s : List Char) : List Char := (uniformNewlines s).rtakeWhile fun c => !isLineBreak c

theorem finished_append_unfinished (s : List Char) : finished s ++ unfinished s = uniformNewlines s :=
  List.rdropWhile_append_rtakeWhile

theorem isLineBreak_of_mem_unfinished {s : List Char} : ∀ c ∈ unfinished s, isLineBreak c = false := by
  intro c hc
  simpa using List.mem_rtakeWhile_imp hc

theorem return_notMem_finished (s : List Char) : '\r' ∉ finished s := fun hmem =>
  return_notMem_uniformNewlines s ((List.rdropWhile_prefix _ _).subset hmem)

/-- The finished lines do not depend on what stands behind them. -/
theorem linesFrom_finished (s t : List Char) :
    linesFrom [] (finished s ++ t) = linesFrom [] (finished s) ++ linesFrom [] t := by
  rcases List.eq_nil_or_concat (finished s) with hnil | ⟨most, b, hlast⟩
  · rw [hnil]
    rfl
  · have hne : finished s ≠ [] := by simp [hlast]
    have hb : isLineBreak b = true := by
      have hbreak : ¬ (!isLineBreak ((finished s).getLast hne)) = true :=
        List.rdropWhile_last_not _ _ hne
      simpa [hlast] using hbreak
    have hreturn := return_notMem_finished s
    rw [hlast] at hreturn ⊢
    simp only [List.concat_eq_append, List.mem_append, List.mem_singleton, not_or] at hreturn ⊢
    rw [List.append_assoc, List.singleton_append]
    exact linesFrom_append_break hreturn.1 hb (Ne.symm hreturn.2) [] t

end Polyscan.Text
