import Polyscan.Proofs.Pattern.Backtracking
import Polyscan.Proofs.Scan.Spans
import Polyscan.Proofs.Text.Row

/-!
The built-in rule on an arbitrary text. `trailingPattern` is searched in the text as a whole; the findings can
be described line by line: one for each line that ends with a character other than white space followed by
spaces and tabs, at these spaces and tabs.
-/
namespace Polyscan

/-! ## Ways through texts -/

namespace Pattern

/-- The subject of a search in a text. -/
def subjectOf (text : List Char) : Subject := (text.map Char.toNat).toArray

theorem size_subjectOf (text : List Char) : (subjectOf text).size = text.length := by simp [subjectOf]

/-- The text is `s` followed by `rest`, and `p` is the offset between them. -/
structure Parts (text s rest : List Char) (p : Nat) : Prop where
  text : text = s ++ rest
  place : p = s.length

variable {text s rest w tail : List Char} {p n : Nat} {holds : Nat → Bool} {marks : Marks} {y : Stop}

theorem parts_take_drop (h : p ≤ text.length) : Parts text (text.take p) (text.drop p) p where
  text := (List.take_append_drop p text).symm
  place := (List.length_take_of_le h).symm

namespace Parts

theorem append (h : Parts text s (w ++ tail) p) : Parts text (s ++ w) tail (p + w.length) where
  text := by rw [h.text, List.append_assoc]
  place := by rw [h.place, List.length_append]

theorem snoc {c : Char} (h : Parts text s (c :: tail) p) : Parts text (s ++ [c]) tail (p + 1) :=
  h.append (w := [c])

theorem getElem?_eq (h : Parts text s rest p) : (subjectOf text)[p]? = rest.head?.map Char.toNat := by
  rw [h.text, h.place]
  simp [subjectOf, List.head?_eq_getElem?, List.getElem?_append_right]

theorem takes_iff (h : Parts text s rest p) : Takes (subjectOf text) holds (p, marks) y ↔
    ∃ c more, rest = c :: more ∧ holds c.toNat = true ∧ y = (p + 1, marks) := by
  unfold Takes
  rw [h.getElem?_eq]
  cases rest <;> simp

/-- Repetitions of a one-character item match a stretch of such characters. -/
theorem rounds_iff (h : Parts text s rest p) : Rounds (Takes (subjectOf text) holds) n (p, marks) y ↔
    ∃ w tail, rest = w ++ tail ∧ w.length = n ∧ (∀ c ∈ w, holds c.toNat = true) ∧ y = (p + n, marks) := by
  induction n generalizing s rest p with
  | zero =>
    constructor
    · rintro ⟨⟩
      exact ⟨[], rest, rfl, rfl, by simp, rfl⟩
    · rintro ⟨w, tail, -, -, -, rfl⟩
      exact .none
  | succ n ih =>
    constructor
    · rintro (_ | ⟨hround, hrest⟩)
      obtain ⟨c, more, rfl, hc, rfl⟩ := h.takes_iff.mp hround
      obtain ⟨w, tail, rfl, rfl, hw, rfl⟩ := (ih h.snoc).mp hrest
      exact ⟨c :: w, tail, rfl, rfl, List.forall_mem_cons.mpr ⟨hc, hw⟩, by rw [Nat.add_right_comm]; rfl⟩
    · rintro ⟨w, tail, rfl, hn, hw, rfl⟩
      cases w with
      | nil => cases hn
      | cons c w =>
        rw [List.forall_mem_cons] at hw
        refine .round (h.takes_iff.mpr ⟨c, w ++ tail, rfl, hw.1, rfl⟩) ((ih h.snoc).mpr ?_)
        exact ⟨w, tail, rfl, Nat.succ.inj hn, hw.2, by rw [Nat.add_right_comm]; rfl⟩

theorem lineEnd_iff (h : Parts text s rest p) {flags : Flags} (hflags : flags.multiLine = true) :
    anchorHolds flags (subjectOf text) .lineEnd p = true ↔ Text.EndsLine rest := by
  have hsize : (subjectOf text).size = p + rest.length := by
    rw [size_subjectOf, h.text, h.place, List.length_append]
  unfold anchorHolds isNewlineAt
  rw [h.getElem?_eq, hsize, hflags]
  cases rest with
  | nil => simp [Text.EndsLine]
  | cons c more =>
    have hc : c.toNat = newline ↔ c = '\n' := Char.toNat_inj (d := '\n')
    simp [Text.EndsLine, hc]

end Parts

end Pattern

namespace PatternRule

/-! ## Stretches at the ends of lines -/

/-- A character that is not white space, and the spaces and tabs behind it. -/
structure IsTrail (c : Char) (w : List Char) : Prop where
  solid : Pattern.CharKind.space.holds Pattern.ruleFlags c.toNat = false
  nonempty : w ≠ []
  pads : ∀ x ∈ w, x = ' ' ∨ x = '\t'

/-- Such a stretch stands behind the first part `s` of the text, at the end of a line. -/
structure TrailsAt (text s : List Char) (c : Char) (w : List Char) : Prop where
  trail : IsTrail c w
  ends : ∃ tail, text = s ++ c :: (w ++ tail) ∧ Text.EndsLine tail

variable {text s p w : List Char} {c : Char} {n : Nat}

theorem IsTrail.notMem (h : IsTrail c w) {d : Char} {v : List Char} (hd : IsTrail d v) : d ∉ w := by
  intro hmem
  have hsolid := hd.solid
  rcases h.pads d hmem with rfl | rfl <;> cases hsolid

theorem IsTrail.newline_notMem (h : IsTrail c w) : '\n' ∉ c :: w := by
  rw [List.mem_cons, not_or]
  constructor
  · rintro rfl
    cases h.solid
  · intro hmem
    rcases h.pads _ hmem with heq | heq <;> cases heq

/-- No such stretch continues another one. -/
theorem IsTrail.eq_nil_of_append (h : IsTrail c w) {t v : List Char} {d : Char} (hd : IsTrail d v)
    (hsplit : c :: w = t ++ d :: v) : t = [] := by
  cases t with
  | nil => rfl
  | cons first t =>
    cases hsplit
    exact absurd (by simp) (h.notMem hd)

/-- A line has at most one such stretch at its end. -/
theorem IsTrail.unique (h : IsTrail c w) {p' w' : List Char} {c' : Char} (h' : IsTrail c' w')
    (hline : p ++ c :: w = p' ++ c' :: w') : p = p' ∧ c = c' ∧ w = w' := by
  rcases List.append_eq_append_iff.mp hline with ⟨t, rfl, ht⟩ | ⟨t, rfl, ht⟩
  · obtain rfl := h.eq_nil_of_append h' ht
    cases ht
    exact ⟨(List.append_nil p).symm, rfl, rfl⟩
  · obtain rfl := h'.eq_nil_of_append h ht
    cases ht
    exact ⟨List.append_nil p', rfl, rfl⟩

theorem TrailsAt.front (h : TrailsAt text s c w) : s ++ c :: w <+: text := by
  obtain ⟨-, tail, htext, -⟩ := h
  exact ⟨tail, by rw [htext, List.append_assoc, List.cons_append]⟩

theorem TrailsAt.before (h : TrailsAt text s c w) : s <+: text := (List.prefix_append s _).trans h.front

/-- Of two such stretches in a text, the text in front of the later one extends that in front of the other. -/
theorem TrailsAt.exists_between (h : TrailsAt text s c w) {s' w' : List Char} {c' : Char}
    (h' : TrailsAt text s' c' w') (hle : s.length ≤ s'.length) : ∃ t, s' = s ++ t := by
  obtain ⟨t, ht⟩ := List.prefix_of_prefix_length_le h.before h'.before hle
  exact ⟨t, ht.symm⟩

/-- The stretches of a text are the ends of its lines. -/
theorem getElem?_pieces_iff_trailsAt (htrail : IsTrail c w) :
    (Text.pieces '\n' text)[n]? = some (p ++ c :: w) ↔ ∃ s, TrailsAt text s c w ∧ Text.LastLine s n p := by
  rw [Text.getElem?_pieces_eq_some_iff htrail.newline_notMem]
  simp only [List.append_assoc, List.cons_append]
  constructor
  · rintro ⟨s, tail, htext, hlast, hends⟩
    exact ⟨s, ⟨htrail, tail, htext, hends⟩, hlast⟩
  · rintro ⟨s, ⟨-, tail, htext, hends⟩, hlast⟩
    exact ⟨s, tail, htext, hlast, hends⟩

/-- Two stretches in the same line are equal. -/
theorem TrailsAt.eq_of_lastLine (h : TrailsAt text s c w) (hlast : Text.LastLine s n p) {s' p' w' : List Char}
    {c' : Char} (h' : TrailsAt text s' c' w') (hlast' : Text.LastLine s' n p') : p = p' ∧ c = c' ∧ w = w' := by
  have hline := (getElem?_pieces_iff_trailsAt h.trail).mpr ⟨s, h, hlast⟩
  rw [(getElem?_pieces_iff_trailsAt h'.trail).mpr ⟨s', h', hlast'⟩] at hline
  exact h.trail.unique h'.trail (Option.some.inj hline).symm

/-- No stretch starts within another one. -/
theorem TrailsAt.unique (h : TrailsAt text s c w) {s' w' : List Char} {c' : Char} (h' : TrailsAt text s' c' w')
    (hfrom : s.length ≤ s'.length) (hto : s'.length ≤ s.length + w.length) : s = s' ∧ c = c' ∧ w = w' := by
  obtain ⟨t, rfl⟩ := h.exists_between h' hfrom
  have hlength : (s ++ t).length ≤ (s ++ c :: w).length := by
    simp only [List.length_append, List.length_cons] at hto ⊢
    omega
  have ht : t <+: c :: w :=
    (List.prefix_append_right_inj s).mp (List.prefix_of_prefix_length_le h'.before h.front hlength)
  -- `t` continues the line in which `s` ends
  obtain ⟨n, p, hlast⟩ := Text.exists_lastLine s
  have hlast' := hlast.append fun hmem => h.trail.newline_notMem (ht.subset hmem)
  obtain ⟨hp, hc, hw⟩ := h.eq_of_lastLine hlast h' hlast'
  have hnone : t = [] := by simpa using hp
  rw [hnone, List.append_nil]
  exact ⟨rfl, hc, hw⟩

/-! ## Matches -/

/-- The pattern is the one that the rule's text spells. -/
example : (Pattern.compile Pattern.ruleFlags "\\S([ \\t]+)$").toOption = some trailingWhitespace.pattern := by
  decide +kernel

theorem solid_iff : Pattern.setMatches Pattern.ruleFlags false [.kind true .space] c.toNat = true ↔
    Pattern.CharKind.space.holds Pattern.ruleFlags c.toNat = false := by
  simp [Pattern.setMatches, Pattern.ruleFlags, Pattern.Member.holds]

theorem pads_iff : (∀ x ∈ w, Pattern.setMatches Pattern.ruleFlags false [.one 32, .one 9] x.toNat = true) ↔
    ∀ x ∈ w, x = ' ' ∨ x = '\t' := by
  refine forall₂_congr fun x _ => ?_
  have hspace : 32 = x.toNat ↔ x = ' ' := eq_comm.trans (Char.toNat_inj (d := ' '))
  have htab : 9 = x.toNat ↔ x = '\t' := eq_comm.trans (Char.toNat_inj (d := '\t'))
  simp [Pattern.setMatches, Pattern.ruleFlags, Pattern.Member.holds, hspace, htab]

/-- The pattern matches exactly the stretches at line ends. -/
theorem way_trailing_iff {rest : List Char} {first : Nat} {y : Pattern.Stop}
    (h : Pattern.Parts text s rest first) :
    Pattern.Way (Pattern.subjectOf text) trailingPattern.tree trailingPattern.flags
        (first, trailingPattern.blank) y ↔
      ∃ c w tail, rest = c :: (w ++ tail) ∧ IsTrail c w ∧ Text.EndsLine tail ∧
        y = (first + 1 + w.length, [some (first + 1), some (first + 1 + w.length)]) := by
  constructor
  · rintro ⟨x, hsolid, y, ⟨z, ⟨v, ⟨n, hn, -, hrounds⟩, rfl⟩, rfl⟩, _, ⟨hend, rfl⟩, rfl⟩
    obtain ⟨c, more, rfl, hc, rfl⟩ := h.takes_iff.mp hsolid
    obtain ⟨w, tail, rfl, rfl, hw, rfl⟩ := h.snoc.rounds_iff.mp hrounds
    have hsome : w ≠ [] := by
      rintro rfl
      cases hn
    exact ⟨c, w, tail, rfl, ⟨solid_iff.mp hc, hsome, pads_iff.mp hw⟩, (h.snoc.append.lineEnd_iff rfl).mp hend, rfl⟩
  · rintro ⟨c, w, tail, rfl, htrail, hends, rfl⟩
    let marks := [some (first + 1), none]
    have hsolid : Pattern.Way (Pattern.subjectOf text) (.set false [.kind true .space]) trailingPattern.flags
        (first, trailingPattern.blank) (first + 1, trailingPattern.blank) :=
      h.takes_iff.mpr ⟨c, w ++ tail, rfl, solid_iff.mpr htrail.solid, rfl⟩
    have hpads : Pattern.Rounds
        (Pattern.Way (Pattern.subjectOf text) (.set false [.one 32, .one 9]) trailingPattern.flags) w.length
        (first + 1, marks) (first + 1 + w.length, marks) :=
      h.snoc.rounds_iff.mpr ⟨w, tail, rfl, rfl, pads_iff.mpr htrail.pads, rfl⟩
    have hend : Pattern.anchorHolds trailingPattern.flags (Pattern.subjectOf text) .lineEnd
        (first + 1 + w.length) = true :=
      (h.snoc.append.lineEnd_iff rfl).mpr hends
    have hpos : 1 ≤ w.length := List.length_pos_iff.mpr htrail.nonempty
    exact ⟨_, hsolid, (first + 1 + w.length, [some (first + 1), some (first + 1 + w.length)]),
      ⟨_, ⟨_, ⟨w.length, hpos, nofun, hpads⟩, rfl⟩, rfl⟩, _, ⟨hend, rfl⟩, rfl⟩

theorem TrailsAt.parts (h : TrailsAt text s c w) :
    ∃ tail, Pattern.Parts text s (c :: (w ++ tail)) s.length ∧ Text.EndsLine tail := by
  obtain ⟨-, tail, htext, hends⟩ := h
  exact ⟨tail, ⟨htext, rfl⟩, hends⟩

/-- The pattern matches where a stretch starts. -/
theorem TrailsAt.matchAt_isSome (h : TrailsAt text s c w) (moving : Bool) :
    (trailingPattern.matchAt (Pattern.subjectOf text) moving s.length).isSome := by
  obtain ⟨tail, hparts, hends⟩ := h.parts
  have hway := (way_trailing_iff hparts).mpr ⟨c, w, tail, rfl, h.trail, hends, rfl⟩
  refine Pattern.matchAt_isSome rfl ?_ hway fun _ => ?_
  · unfold Pattern.mayBegin
    rw [hparts.getElem?_eq]
    exact solid_iff.mpr h.trail.solid
  · show s.length + 1 + w.length ≠ s.length
    omega

variable {moving : Bool} {start : Nat} {ms : List Pattern.Match}

/-- Every match is such a stretch, with the spaces and tabs as group 1. -/
theorem exists_trailsAt_of_mem
    (h : Pattern.Successive trailingPattern (Pattern.subjectOf text) moving start ms) {m : Pattern.Match}
    (hm : m ∈ ms) :
    ∃ s c w, TrailsAt text s c w ∧ m.first = s.length ∧ m.last = s.length + 1 + w.length ∧
      m.span? 1 = some (s.length + 1, s.length + 1 + w.length) := by
  have hbounds := h.bounds m hm
  rw [Pattern.size_subjectOf] at hbounds
  have hparts := Pattern.parts_take_drop (Nat.le_trans hbounds.1 hbounds.2)
  obtain ⟨c, w, tail, hrest, htrail, hends, hlast⟩ := (way_trailing_iff hparts).mp (h.describes m hm)
  obtain ⟨hlast, hmarks⟩ := Prod.mk.inj hlast
  have htext := hparts.text
  rw [hrest] at htext
  rw [hparts.place] at hlast hmarks
  refine ⟨text.take m.first, c, w, ⟨htrail, tail, htext, hends⟩, hparts.place, hlast, ?_⟩
  show Pattern.span? m.marks 1 = _
  rw [hmarks]
  exact if_pos (Nat.le_add_right _ _)

/-- The reported groups are the spaces and tabs of all such stretches. -/
theorem mem_spans_trailing_iff
    (h : Pattern.Successive trailingPattern (Pattern.subjectOf text) moving 0 ms) {first last : Nat} :
    (first, last) ∈ trailingWhitespace.spans ms ↔
      ∃ s c w, TrailsAt text s c w ∧ first = s.length + 1 ∧ last = s.length + 1 + w.length := by
  rw [mem_spans_iff]
  constructor
  · rintro ⟨m, hm, hspan, -⟩
    obtain ⟨s, c, w, htrails, -, -, hgroup⟩ := exists_trailsAt_of_mem h hm
    obtain ⟨rfl, rfl⟩ := Prod.mk.inj (Option.some.inj (hspan.symm.trans hgroup))
    exact ⟨s, c, w, htrails, rfl, rfl⟩
  · rintro ⟨s, c, w, htrails, rfl, rfl⟩
    have hsize : s.length ≤ (Pattern.subjectOf text).size := by
      rw [Pattern.size_subjectOf]
      exact htrails.before.length_le
    obtain ⟨m, hm, hcover⟩ := h.exists_cover (Nat.zero_le _) hsize htrails.matchAt_isSome
    obtain ⟨s', c', w', htrails', hfirst, hlast, hgroup⟩ := exists_trailsAt_of_mem h hm
    -- the match that covers the offset starts there
    obtain ⟨rfl, rfl, rfl⟩ := htrails'.unique htrails (by omega) (by omega)
    have hpos := List.length_pos_iff.mpr htrails.trail.nonempty
    refine ⟨m, hm, hgroup, ?_⟩
    show s'.length + 1 ≠ s'.length + 1 + w'.length
    omega

/-! ## Locations -/

/-- The finding of the built-in rule in line `n`, counted from zero, between two columns. -/
def trailingFinding (file : String) (n first last : Nat) : Finding Int where
  rule := trailingWhitespace.name
  message := trailingWhitespace.message
  locations := [{ file, startLine := n + 1, startColumn := first, endLine := some (n + 1),
                  endColumn := some last }]
  primaryIndex := 0
  resourceUrls := trailingWhitespace.resourceUrls

theorem finding_eq_trailingFinding (file : String) (h : TrailsAt text s c w) (hlast : Text.LastLine s n p) :
    trailingWhitespace.finding (.ofText file text) (s.length + 1) (s.length + 1 + w.length) =
      trailingFinding file n (p.length + 2) (p.length + w.length + 2) := by
  have hnewline := h.trail.newline_notMem
  have hfront : s ++ [c] <+: text :=
    ((List.prefix_append_right_inj s).mpr (List.prefix_append [c] w)).trans h.front
  have hfirst : Text.position (Text.lineStarts text) (s.length + 1 : Nat) = ⟨n + 1, (p.length + 2 : Nat)⟩ := by
    have hbegin : Text.LastLine (s ++ [c]) n (p ++ [c]) :=
      hlast.append fun hmem => hnewline (List.mem_cons.mpr (.inl (List.mem_singleton.mp hmem)))
    have hplace := hbegin.position hfront
    rwa [List.length_append, List.length_append, List.length_singleton] at hplace
  have hend : Text.position (Text.lineStarts text) (s.length + 1 + w.length : Nat) =
      ⟨n + 1, (p.length + w.length + 2 : Nat)⟩ := by
    have hlength : ∀ l : List Char, (l ++ c :: w).length = l.length + 1 + w.length := by
      intro l
      rw [List.length_append, List.length_cons, Nat.add_assoc, Nat.add_comm 1]
    have hplace := (hlast.append hnewline).position h.front
    rwa [hlength, hlength, Nat.add_right_comm p.length] at hplace
  unfold finding Scanned.location Scanned.ofText trailingFinding
  simp only
  rw [hfirst, hend]
  rfl

/-! ## Reports -/

/-- The findings of the built-in rule in a text: one for each line that ends with such a stretch, in the order
of the lines, and no others. -/
structure ReportsTrailing (file : String) (text : List Char) (fs : List (Finding Int)) : Prop where
  each : ∀ n p c w, (Text.pieces '\n' text)[n]? = some (p ++ c :: w) → IsTrail c w →
    trailingFinding file n (p.length + 2) (p.length + w.length + 2) ∈ fs
  only : ∀ f ∈ fs, ∃ n p c w, (Text.pieces '\n' text)[n]? = some (p ++ c :: w) ∧ IsTrail c w ∧
    f = trailingFinding file n (p.length + 2) (p.length + w.length + 2)
  order : fs.Pairwise fun f f' => ∀ l ∈ f.locations, ∀ l' ∈ f'.locations, l.startLine < l'.startLine

/-- A later stretch is in a later line. -/
theorem TrailsAt.lt_of_lt (h : TrailsAt text s c w) (hlast : Text.LastLine s n p) {s' p' w' : List Char}
    {c' : Char} {n' : Nat} (h' : TrailsAt text s' c' w') (hlast' : Text.LastLine s' n' p')
    (hlt : s.length < s'.length) : n < n' := by
  obtain ⟨t, rfl⟩ := h.exists_between h' (Nat.le_of_lt hlt)
  have ht : t ≠ [] := by
    rintro rfl
    simp at hlt
  have hplace : Text.positionAfter (s ++ t) = t.foldl Text.advance (Text.positionAfter s) := List.foldl_append
  have hbefore := Text.before_foldl_advance (Text.positionAfter s) ht
  rw [← hplace, hlast.positionAfter, hlast'.positionAfter] at hbefore
  rcases hbefore with hline | ⟨hline, hcolumn⟩
  · exact Nat.lt_of_succ_lt_succ hline
  · -- in the same line there is no other such stretch
    obtain rfl : n = n' := Nat.succ.inj hline
    obtain ⟨rfl, -⟩ := h.eq_of_lastLine hlast h' hlast'
    exact absurd hcolumn (Int.lt_irrefl _)

/-- `findingsIn` of the built-in rule returns the findings of `ReportsTrailing`. -/
theorem exists_reportsTrailing (file : String) (text : List Char) :
    ∃ fs, trailingWhitespace.findingsIn (.ofText file text) = .ok fs ∧ ReportsTrailing file text fs := by
  have hreportable : trailingWhitespace.Reportable := ⟨by decide, by decide⟩
  have hsuccessive := Pattern.successive_matchesIn trailingPattern (Pattern.subjectOf text)
  refine ⟨_, findingsIn_eq hreportable (.ofText file text), ?_⟩
  constructor
  case each =>
    intro n p c w hline htrail
    obtain ⟨s, htrails, hlast⟩ := (getElem?_pieces_iff_trailsAt htrail).mp hline
    rw [← finding_eq_trailingFinding file htrails hlast]
    exact List.mem_map_of_mem ((mem_spans_trailing_iff hsuccessive).mpr ⟨s, c, w, htrails, rfl, rfl⟩)
  case only =>
    intro f hf
    obtain ⟨⟨first, last⟩, hspan, rfl⟩ := List.mem_map.mp hf
    obtain ⟨s, c, w, htrails, rfl, rfl⟩ := (mem_spans_trailing_iff hsuccessive).mp hspan
    obtain ⟨n, p, hlast⟩ := Text.exists_lastLine s
    exact ⟨n, p, c, w, (getElem?_pieces_iff_trailsAt htrails.trail).mpr ⟨s, htrails, hlast⟩, htrails.trail,
      finding_eq_trailingFinding file htrails hlast⟩
  case order =>
    rw [List.pairwise_map]
    refine (pairwise_spans hsuccessive (reportsInside_trailingWhitespace _)).imp_of_mem ?_
    rintro ⟨first, last⟩ ⟨first', last'⟩ hspan hspan' hbehind
    obtain ⟨s, c, w, htrails, rfl, rfl⟩ := (mem_spans_trailing_iff hsuccessive).mp hspan
    obtain ⟨s', c', w', htrails', rfl, rfl⟩ := (mem_spans_trailing_iff hsuccessive).mp hspan'
    obtain ⟨n, p, hlast⟩ := Text.exists_lastLine s
    obtain ⟨n', p', hlast'⟩ := Text.exists_lastLine s'
    have hlt : n < n' := by
      have hpos := List.length_pos_iff.mpr htrails.trail.nonempty
      have hbehind : s.length + 1 + w.length ≤ s'.length + 1 := hbehind
      exact htrails.lt_of_lt hlast htrails' hlast' (by omega)
    simp only [finding_eq_trailingFinding file htrails hlast, finding_eq_trailingFinding file htrails' hlast']
    intro l hl l' hl'
    rw [trailingFinding, List.mem_singleton] at hl hl'
    rw [hl, hl']
    show (n : Int) + 1 < (n' : Int) + 1
    omega

/-- `findingsIn` of the built-in rule returns the findings of `ReportsTrailing` for every text, and `scanFile`
with the built-in rules returns the same findings on every file with this text to which the rule applies. -/
theorem trailingWhitespace_reports (file : String) (text : List Char) :
    ∃ fs, trailingWhitespace.findingsIn (.ofText file text) = .ok fs ∧ ReportsTrailing file text fs ∧
      ∀ (h : Host) (content : List Char), h.readText file = .ok content →
        Text.uniformNewlines content = text → trailingWhitespace.appliesTo file = true →
          scanFile h builtin file = .ok fs := by
  obtain ⟨fs, hfs, hreports⟩ := exists_reportsTrailing file text
  refine ⟨fs, hfs, hreports, ?_⟩
  rintro h content hread rfl happlies
  have happlicable : builtin.filter (·.appliesTo file) = builtin := by
    rw [builtin, List.filter_singleton, happlies]
    rfl
  rw [scanFile_of_text hread, happlicable]
  simp only [builtin, allFindingsIn, List.mapM_cons, List.mapM_nil, hfs]
  simp [bind, Except.bind, pure, Except.pure]

/-- Three lines, the second of which has only white space; the last one has no line end. -/
def paddedBytes : Text.Bytes := [97, 98, 32, 13, 10, 32, 9, 10, 32, 120, 9, 121, 32, 9]

/-- The line of white space has no finding. -/
theorem trailingWhitespace_reports_padded :
    ∃ fs, scanFile (.withMain paddedBytes) builtin "/main.py" = .ok fs ∧
      ReportsTrailing "/main.py" "ab \n \t\n x\ty \t".toList fs ∧
      fs.map Finding.locations =
        [[⟨"/main.py", 1, 3, some 1, some 4⟩], [⟨"/main.py", 3, 5, some 3, some 7⟩]] := by
  obtain ⟨fs, hfs, hreports, hscan⟩ := trailingWhitespace_reports "/main.py" "ab \n \t\n x\ty \t".toList
  refine ⟨fs, hscan (.withMain paddedBytes) "ab \r\n \t\n x\ty \t".toList rfl rfl (by decide), hreports, ?_⟩
  have hlocations : (trailingWhitespace.findingsIn
        (.ofText "/main.py" "ab \n \t\n x\ty \t".toList)).toOption.map (List.map Finding.locations) =
      some [[⟨"/main.py", 1, 3, some 1, some 4⟩], [⟨"/main.py", 3, 5, some 3, some 7⟩]] := by decide +kernel
  rw [hfs] at hlocations
  exact Option.some.inj hlocations

end PatternRule

end Polyscan
