import Polyscan.Proofs.Scan
import Polyscan.Proofs.Text.Offset

/-!
The findings of `scanFile`. Each rule that applies to the file has one finding for each of its successive
matches (`Pattern.Successive`) whose reported group is not empty. A finding has the lines and columns that
`Text.position` computes for the two ends of the group, `Text.cut` recovers the group from them, and the
findings of one rule are disjoint and in order by the lines and columns that they report.
-/
namespace Polyscan

/-! ## Reported places -/

/-- The location from one position in a file to another. -/
def Location.between (file : String) (p q : Text.Position) : Location Int :=
  { file, startLine := p.line, startColumn := p.column, endLine := some q.line, endColumn := some q.column }

/-- Both findings have one location, which ends behind its start. The one of `g` starts behind the start of
the one of `f`, and not in front of its end. -/
def Finding.Precedes (f g : Finding Int) : Prop :=
  ∃ file p q p' q', f.locations = [.between file p q] ∧ g.locations = [.between file p' q'] ∧
    p.Before q ∧ p'.Before q' ∧ p.Before p' ∧ ¬ p'.Before q

/-! ## Reported groups -/

namespace PatternRule

/-- The reported group of every match lies within the match. -/
def ReportsInside (r : PatternRule) (s : Pattern.Subject) : Prop :=
  ∀ m first last, r.pattern.Describes s m → m.span? r.group.toNat = some (first, last) →
    m.first ≤ first ∧ last ≤ m.last

theorem reportsInside_of_group_eq_zero {r : PatternRule} (h : r.group = 0) (s : Pattern.Subject) :
    r.ReportsInside s := by
  intro m first last _ hspan
  rw [h] at hspan
  cases hspan
  exact ⟨Nat.le_refl _, Nat.le_refl _⟩

/-- Group 1 of a match of `trailingPattern` is the match without its first character. -/
theorem marks_of_trailing {s : Pattern.Subject} {m : Pattern.Match} (h : trailingPattern.Describes s m) :
    m.marks = [some (m.first + 1), some m.last] := by
  obtain ⟨x, ⟨c, -, -, rfl⟩, y, ⟨z, ⟨w, ⟨n, -, -, hrounds⟩, hbody⟩, rfl⟩, _, ⟨-, rfl⟩, hend⟩ := h
  -- the repetition inside the group does not change the marks
  have hkept : trailingPattern.blank.set 0 (some (m.first + 1)) = w.2 := by
    refine hrounds.lift (fun x y => x.2 = y.2) ?_ (fun _ => rfl) fun _ _ _ => Eq.trans
    intro x y hround
    obtain ⟨c, -, -, rfl⟩ := hround
    rfl
  obtain rfl : z = w := hbody
  obtain ⟨hlast, hmarks⟩ := Prod.mk.inj hend
  rw [hmarks, ← hkept, hlast]
  rfl

theorem reportsInside_trailingWhitespace (s : Pattern.Subject) : trailingWhitespace.ReportsInside s := by
  intro m first last hm hspan
  have hspan : Pattern.span? m.marks 1 = some (first, last) := hspan
  rw [marks_of_trailing hm] at hspan
  have hcases : (if m.first + 1 ≤ m.last then some (m.first + 1, m.last) else none) = some (first, last) := hspan
  split at hcases
  · cases hcases
    exact ⟨Nat.le_succ _, Nat.le_refl _⟩
  · cases hcases

/-- The reported groups of successive matches are disjoint and in order. -/
theorem pairwise_spans {r : PatternRule} {s : Pattern.Subject} {moving : Bool} {p : Nat} {ms : List Pattern.Match}
    (h : Pattern.Successive r.pattern s moving p ms) (hinside : r.ReportsInside s) :
    (r.spans ms).Pairwise fun span span' => span.2 ≤ span'.1 := by
  unfold spans
  rw [List.pairwise_filterMap]
  refine h.pairwise.imp_of_mem fun {m n} hm hn hmn => ?_
  intro span hspan span' hspan'
  rw [Option.filter_eq_some_iff] at hspan hspan'
  -- each group lies within its match, and the matches are disjoint
  have hin := hinside m _ _ (h.describes m hm) hspan.1
  have hin' := hinside n _ _ (h.describes n hn) hspan'.1
  exact Nat.le_trans hin.2 (Nat.le_trans hmn hin'.1)

/-! ## Findings in a text -/

/-- The finding of a rule at a pair of offsets. Its location is from `Text.position` of the first offset to
`Text.position` of the second. These are the positions behind the characters in front of the two offsets, and
the text that they cut out is the text between the offsets. -/
structure FoundAt (r : PatternRule) (file : String) (text : List Char) (span : Nat × Nat) (f : Finding Int) :
    Prop where
  finding : f = { rule := r.name, message := r.message, primaryIndex := 0, resourceUrls := r.resourceUrls,
                  locations := [.between file (Text.position (Text.lineStarts text) span.1)
                    (Text.position (Text.lineStarts text) span.2)] }
  first : Text.position (Text.lineStarts text) span.1 = Text.positionAfter (text.take span.1)
  last : Text.position (Text.lineStarts text) span.2 = Text.positionAfter (text.take span.2)
  cut : Text.cut (Text.position (Text.lineStarts text) span.1) (Text.position (Text.lineStarts text) span.2) text =
    (text.take span.2).drop span.1

/-- The findings of a rule in a text: `ms` are the successive matches, and each match with a nonempty group
has one finding. The groups lie within the text and are disjoint and in order, and so are the reported lines
and columns. -/
structure Reports (r : PatternRule) (file : String) (text : List Char) (ms : List Pattern.Match)
    (fs : List (Finding Int)) : Prop where
  successive : Pattern.Successive r.pattern (Scanned.ofText file text).subject false 0 ms
  findings : List.Forall₂ (r.FoundAt file text) (r.spans ms) fs
  within : ∀ span ∈ r.spans ms, span.1 < span.2 ∧ span.2 ≤ text.length
  disjoint : (r.spans ms).Pairwise fun span span' => span.2 ≤ span'.1
  ordered : fs.Pairwise Finding.Precedes

section

variable {r : PatternRule} {file : String} {text : List Char}

/-- `finding` reports the positions that `positionAfter` counts. -/
theorem foundAt_finding {first last : Nat} (hle : first ≤ last) (hlast : last ≤ text.length) :
    r.FoundAt file text (first, last) (r.finding (.ofText file text) first last) := by
  have hfirst := Text.position_eq_positionAfter (hle.trans hlast)
  have hend := Text.position_eq_positionAfter hlast
  have hstretch : text.take first ++ (text.take last).drop first = text.take last := by
    have htake : text.take first = (text.take last).take first := by rw [List.take_take, Nat.min_eq_left hle]
    rw [htake, List.take_append_drop]
  refine ⟨rfl, hfirst, hend, ?_⟩
  have hcut := Text.cut_eq (text.take first) ((text.take last).drop first) (text.drop last)
  rwa [hstretch, List.take_append_drop, ← hfirst, ← hend] at hcut

/-- Findings at disjoint offsets report disjoint positions. -/
theorem precedes_finding {span span' : Nat × Nat} (hspan : span.1 < span.2) (hapart : span.2 ≤ span'.1)
    (hspan' : span'.1 < span'.2) (hlast : span'.2 ≤ text.length) :
    (r.finding (.ofText file text) span.1 span.2).Precedes (r.finding (.ofText file text) span'.1 span'.2) := by
  refine ⟨file, _, _, _, _, rfl, rfl, Text.before_of_lt hspan (by omega), Text.before_of_lt hspan' hlast,
    Text.before_of_lt (by omega) (by omega), ?_⟩
  rcases Nat.eq_or_lt_of_le hapart with heq | hlt
  · rw [heq]
    exact fun hself => hself.asymm hself
  · exact (Text.before_of_lt hlt (by omega)).asymm

/-- `findingsIn` returns the findings of `Reports`, for a rule whose reported group lies within its matches. -/
theorem exists_reports (hr : r.Reportable) (hinside : r.ReportsInside (Scanned.ofText file text).subject) :
    ∃ fs, r.findingsIn (.ofText file text) = .ok fs ∧ ∃ ms, r.Reports file text ms fs := by
  have hsize : (Scanned.ofText file text).subject.size = text.length := by
    simp [Scanned.ofText]
  have hsuccessive := Pattern.successive_matchesIn r.pattern (Scanned.ofText file text).subject
  have hbounds := hsuccessive.bounds
  rw [hsize] at hbounds
  have hwithin : ∀ span ∈ r.spans (r.pattern.matchesIn (Scanned.ofText file text).subject),
      span.1 < span.2 ∧ span.2 ≤ text.length := by
    rintro ⟨first, last⟩ hspan
    obtain ⟨m, hm, hspan, hne⟩ := mem_spans_iff.mp hspan
    have hle : first ≤ last := Pattern.Match.span?_le (hbounds m hm).1 hspan
    have hin := hinside m first last (hsuccessive.describes m hm) hspan
    exact ⟨Nat.lt_of_le_of_ne hle hne, Nat.le_trans hin.2 (hbounds m hm).2⟩
  have hdisjoint := pairwise_spans hsuccessive hinside
  refine ⟨_, findingsIn_eq hr _, _, hsuccessive, ?_, hwithin, hdisjoint, ?_⟩
  · rw [List.forall₂_map_right_iff, List.forall₂_same]
    intro span hspan
    exact foundAt_finding (Nat.le_of_lt (hwithin span hspan).1) (hwithin span hspan).2
  · rw [List.pairwise_map]
    refine hdisjoint.imp_of_mem fun {span span'} hspan hspan' hapart => ?_
    exact precedes_finding (hwithin span hspan).1 hapart (hwithin span' hspan').1 (hwithin span' hspan').2

end

/-! ## Scans -/

section

variable {settings : EngineConfig} {built rules : List PatternRule} {h : Host} {file : String}
  {data : Text.Bytes} {text : List Char}

end

/-- Settings with a custom rule whose matches may be empty. -/
def letterSettings : EngineConfig :=
  [("custom_rules", .obj [("Letters", .obj [("regex", .str "b*"), ("description", .str "The letter b.")])])]

/-- The rules that `build` makes of them. -/
def letterRules : List PatternRule :=
  [trailingWhitespace,
    { name := "Letters"
      pattern := ⟨"b*", Pattern.ruleFlags, 0, .seq (.loop .greedy 0 none (.char false 98)) .empty⟩
      description := "The letter b."
      message := "A match of the regular expression b* was found."
      extensions := defaultExtensions
      tags := ["Recommended"] }]

/-- Two lines, the second of which ends with a space. -/
def letterBytes : Text.Bytes := [97, 98, 98, 13, 10, 9, 98, 32, 10]

end PatternRule

end Polyscan
