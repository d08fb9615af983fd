import Polyscan.Proofs.Path
import Polyscan.Proofs.Text.Position

/-!
Lines of a text, separated by newlines. Counting characters up to a place gives the number of its line and its
column.
-/
namespace Polyscan.Text

/-- The last of the lines of a text, with the number of lines before it. -/
def LastLine (s : List Char) (n : Nat) (line : List Char) : Prop :=
  ∃ before, pieces '\n' s = before ++ [line] ∧ before.length = n

/-- A line ends here: with the text, or with a newline. -/
def EndsLine (tail : List Char) : Prop := tail = [] ∨ ∃ more, tail = '\n' :: more

variable {s t text line p x tail : List Char} {n : Nat}

theorem exists_lastLine (s : List Char) : ∃ n line, LastLine s n line := by
  rcases List.eq_nil_or_concat' (pieces '\n' s) with hnil | ⟨before, line, hline⟩
  · exact absurd hnil (pieces_ne_nil '\n' s)
  · exact ⟨before.length, line, before, hline, rfl⟩

theorem LastLine.append (h : LastLine s n line) (ht : '\n' ∉ t) : LastLine (s ++ t) n (line ++ t) := by
  obtain ⟨before, hpieces, hlength⟩ := h
  exact ⟨before, pieces_append hpieces ht, hlength⟩

theorem LastLine.newline (h : LastLine s n line) : LastLine (s ++ ['\n']) (n + 1) [] := by
  obtain ⟨before, hpieces, hlength⟩ := h
  refine ⟨before ++ [line], ?_, ?_⟩
  · rw [pieces_append_cons, hpieces]
    rfl
  · rw [List.length_append, List.length_singleton, hlength]

theorem LastLine.unique {m : Nat} {line' : List Char} (h : LastLine s n line) (h' : LastLine s m line') :
    n = m ∧ line = line' := by
  obtain ⟨before, hpieces, rfl⟩ := h
  obtain ⟨before', hpieces', rfl⟩ := h'
  obtain ⟨rfl, hline⟩ := List.append_inj' (hpieces.symm.trans hpieces') rfl
  exact ⟨rfl, List.singleton_inj.mp hline⟩

/-- The position behind a text is the number of its last line and the column behind it. -/
theorem LastLine.positionAfter (h : LastLine s n line) :
    positionAfter s = ⟨n + 1, (line.length + 1 : Nat)⟩ := by
  induction s using List.reverseRecOn generalizing n line with
  | nil =>
    obtain ⟨rfl, rfl⟩ := h.unique (⟨[], rfl, rfl⟩ : LastLine [] 0 [])
    rfl
  | append_singleton s c ih =>
    obtain ⟨m, last, hlast⟩ := exists_lastLine s
    rw [positionAfter_snoc, ih hlast, advance]
    by_cases hc : c = '\n'
    · subst hc
      obtain ⟨rfl, rfl⟩ := h.unique hlast.newline
      rw [if_pos rfl]
      rfl
    · obtain ⟨rfl, rfl⟩ := h.unique (hlast.append (by simpa using Ne.symm hc))
      rw [if_neg hc, List.length_append, List.length_singleton]
      rfl

/-- So does looking up the offset in a text that goes on. -/
theorem LastLine.position (h : LastLine s n line) (hs : s <+: text) :
    position (lineStarts text) s.length = ⟨n + 1, (line.length + 1 : Nat)⟩ := by
  obtain ⟨t, rfl⟩ := hs
  rw [position_lineStarts, h.positionAfter]

/-- A text that is cut at the end of a line. -/
theorem exists_cut_of_pieces {before more : List (List Char)} (h : pieces '\n' text = before ++ line :: more) :
    ∃ tail, EndsLine tail ∧ text = joinChars ['\n'] (before ++ [line]) ++ tail := by
  have htext : text = joinChars ['\n'] (before ++ line :: more) := by rw [← h, joinChars_pieces]
  cases more with
  | nil => exact ⟨[], .inl rfl, by rw [List.append_nil, htext]⟩
  | cons next more =>
    have hparts : before ++ line :: next :: more = (before ++ [line]) ++ (next :: more) := by simp
    refine ⟨'\n' :: joinChars ['\n'] (next :: more), .inr ⟨_, rfl⟩, ?_⟩
    rw [htext, hparts, joinChars_append (by simp) (by simp), List.append_assoc, List.singleton_append]

/-- What a line ends with stands in the text where that line ends. -/
theorem getElem?_pieces_eq_some_iff (hx : '\n' ∉ x) :
    (pieces '\n' text)[n]? = some (p ++ x) ↔
      ∃ s tail, text = s ++ x ++ tail ∧ LastLine s n p ∧ EndsLine tail := by
  constructor
  · intro hline
    obtain ⟨hn, hget⟩ := List.getElem?_eq_some_iff.mp hline
    have hpieces : pieces '\n' text =
        (pieces '\n' text).take n ++ (p ++ x) :: (pieces '\n' text).drop (n + 1) := by
      rw [← hget, ← List.drop_eq_getElem_cons hn, List.take_append_drop]
    have hfree : ∀ l ∈ (pieces '\n' text).take n ++ [p], '\n' ∉ l := by
      intro l hl
      rcases List.mem_append.mp hl with hl | hl
      · exact not_mem_of_mem_pieces (List.mem_of_mem_take hl)
      · have hfull : '\n' ∉ p ++ x := not_mem_of_mem_pieces (List.mem_of_getElem? hline)
        rw [List.mem_singleton.mp hl]
        exact fun hmem => hfull (List.mem_append_left x hmem)
    obtain ⟨tail, hends, htext⟩ := exists_cut_of_pieces hpieces
    refine ⟨joinChars ['\n'] ((pieces '\n' text).take n ++ [p]), tail, ?_, ?_, hends⟩
    · rwa [joinChars_snoc, ← List.append_assoc, ← joinChars_snoc] at htext
    · exact ⟨_, pieces_joinChars (by simp) hfree, List.length_take_of_le (Nat.le_of_lt hn)⟩
  · rintro ⟨s, tail, rfl, ⟨before, hpieces, rfl⟩, hends⟩
    have hstretch := pieces_append hpieces hx
    rcases hends with rfl | ⟨more, rfl⟩
    · rw [List.append_nil, hstretch]
      simp
    · rw [pieces_append_cons, hstretch]
      simp

end Polyscan.Text
