import Polyscan.Pattern.Search

/-!
Ways through patterns. A way leads from one place of a text to another, as a pattern says, and groups are
marked on it. Matching tries what follows a pattern only at the end of a way through the pattern, so a match
is a way through the whole of it: it does not end before it begins, nor behind the end of the text.
-/
namespace Polyscan.Pattern

/-- A place of the text, with the groups so far. -/
abbrev Stop := Nat × Marks

/-! ## Steps -/

/-- What a step finds is found by trying what follows it at the end of a leg. -/
def Follows (step : Next → Next) (leg : Stop → Stop → Prop) : Prop :=
  ∀ next p marks r, step next p marks = some r → ∃ y : Stop, leg (p, marks) y ∧ next y.1 y.2 = some r

section

variable {step step' : Next → Next} {leg leg' : Stop → Stop → Prop}

theorem Follows.of_done (h : Follows step leg) {p : Nat} {marks : Marks} {y : Stop}
    (hdone : step done p marks = some y) : leg (p, marks) y := by
  obtain ⟨z, hleg, hend⟩ := h _ _ _ _ hdone
  cases hend
  exact hleg

/-- A step before another one. -/
theorem Follows.comp (h : Follows step leg) (h' : Follows step' leg') :
    Follows (fun next => step (step' next)) fun x z => ∃ y, leg x y ∧ leg' y z := by
  intro next p marks r hr
  obtain ⟨y, hy, hnext⟩ := h _ _ _ _ hr
  obtain ⟨z, hz, hnext⟩ := h' _ _ _ _ hnext
  exact ⟨z, ⟨y, hy, hz⟩, hnext⟩

end

/-- A leg over one character that satisfies a condition. -/
def Takes (s : Subject) (holds : Nat → Bool) (x y : Stop) : Prop :=
  ∃ c, s[x.1]? = some c ∧ holds c = true ∧ y = (x.1 + 1, x.2)

theorem takeOne_follows (s : Subject) (holds : Nat → Bool) : Follows (takeOne s holds) (Takes s holds) := by
  intro next p marks r hr
  unfold takeOne at hr
  split at hr
  · next c hc =>
    split at hr
    · next hholds => exact ⟨(p + 1, marks), ⟨c, hc, hholds, rfl⟩, hr⟩
    · cases hr
  · cases hr

/-! ## Loops -/

/-- A number of legs one after another. -/
inductive Rounds (leg : Stop → Stop → Prop) : Nat → Stop → Stop → Prop
  | none {x : Stop} : Rounds leg 0 x x
  | round {n : Nat} {x y z : Stop} (hround : leg x y) (hrest : Rounds leg n y z) : Rounds leg (n + 1) x z

/-- The number is within the bound, if there is one. -/
def Within (n : Nat) (bound : Option Nat) : Prop := ∀ k, bound = some k → n ≤ k

/-- Legs one after another, of which there may be as many as are left. -/
def UpTo (leg : Stop → Stop → Prop) (left : Option Nat) (x y : Stop) : Prop :=
  ∃ n, Within n left ∧ Rounds leg n x y

section

variable {step : Next → Next} {leg : Stop → Stop → Prop} {left : Option Nat} {x y z : Stop}

theorem Rounds.append {m n : Nat} (h : Rounds leg m x y) (h' : Rounds leg n y z) : Rounds leg (m + n) x z := by
  induction h with
  | none => rwa [Nat.zero_add]
  | @round m x y z hround hrest ih =>
    rw [Nat.add_right_comm]
    exact .round hround (ih h')

/-- What all legs do, and what is done by doing it again, all rounds do. -/
theorem Rounds.lift {n : Nat} (rel : Stop → Stop → Prop) (h : Rounds leg n x y)
    (hleg : ∀ x y, leg x y → rel x y) (hrefl : ∀ x, rel x x)
    (htrans : ∀ x y z, rel x y → rel y z → rel x z) : rel x y := by
  induction h with
  | none => exact hrefl _
  | round hround hrest ih => exact htrans _ _ _ (hleg _ _ hround) ih

theorem UpTo.stop : UpTo leg left x x := ⟨0, fun k _ => Nat.zero_le k, .none⟩

/-- One more round may be made, and then one less is left. -/
theorem UpTo.round (hleft : mayGoOn left = true) (hround : leg x y)
    (hrest : UpTo leg (left.map (· - 1)) y z) : UpTo leg left x z := by
  obtain ⟨n, hn, hrest⟩ := hrest
  refine ⟨n + 1, ?_, .round hround hrest⟩
  rintro k rfl
  have hk : n ≤ k - 1 := hn (k - 1) rfl
  have hpos : k ≠ 0 := by
    rintro rfl
    cases hleft
  omega

theorem required_follows (h : Follows step leg) (n : Nat) :
    Follows (fun next => required step next n) (Rounds leg n) := by
  induction n with
  | zero => exact fun next p marks r hr => ⟨(p, marks), .none, hr⟩
  | succ n ih =>
    intro next p marks r hr
    obtain ⟨y, hround, hr⟩ := h _ _ _ _ hr
    obtain ⟨z, hrest, hr⟩ := ih _ _ _ _ hr
    exact ⟨z, .round hround hrest, hr⟩

theorem greedy_follows (h : Follows step leg) (fuel : Nat) (left last : Option Nat) :
    Follows (fun next => greedy step next fuel left last) (UpTo leg left) := by
  induction fuel generalizing left last with
  | zero => exact fun next p marks r hr => ⟨(p, marks), .stop, hr⟩
  | succ fuel ih =>
    intro next p marks r hr
    simp only [greedy] at hr
    split at hr
    · next hgoes =>
      rw [Bool.and_eq_true] at hgoes
      split at hr
      · next found hround =>
        cases hr
        obtain ⟨y, hround, hr⟩ := h _ _ _ _ hround
        obtain ⟨z, hrest, hr⟩ := ih _ _ _ _ _ _ hr
        exact ⟨z, .round hgoes.1 hround hrest, hr⟩
      · exact ⟨(p, marks), .stop, hr⟩
    · exact ⟨(p, marks), .stop, hr⟩

theorem lazily_follows (h : Follows step leg) (fuel : Nat) (left last : Option Nat) :
    Follows (fun next => lazily step next fuel left last) (UpTo leg left) := by
  induction fuel generalizing left last with
  | zero => exact fun next p marks r hr => ⟨(p, marks), .stop, hr⟩
  | succ fuel ih =>
    intro next p marks r hr
    simp only [lazily] at hr
    split at hr
    · next found hnext =>
      cases hr
      exact ⟨(p, marks), .stop, hnext⟩
    · split at hr
      · next hgoes =>
        rw [Bool.and_eq_true] at hgoes
        obtain ⟨y, hround, hr⟩ := h _ _ _ _ hr
        obtain ⟨z, hrest, hr⟩ := ih _ _ _ _ _ _ hr
        exact ⟨z, .round hgoes.1 hround hrest, hr⟩
      · cases hr

theorem settled_upTo (h : Follows step leg) (fuel : Nat) (left : Option Nat) (p : Nat) (marks : Marks) :
    UpTo leg left (p, marks) (settled step fuel left p marks) := by
  induction fuel generalizing left p marks with
  | zero => exact .stop
  | succ fuel ih =>
    unfold settled
    split
    · next hleft =>
      split
      · next q marks' hround =>
        have hround := h.of_done hround
        split
        · exact .round hleft hround .stop
        · exact .round hleft hround (ih _ q marks')
      · exact .stop
    · exact .stop

theorem rounds_of_settledRequired (h : Follows step leg) (n : Nat) {p : Nat} {marks : Marks}
    (hr : settledRequired step n p marks = some y) : Rounds leg n (p, marks) y := by
  induction n generalizing p marks with
  | zero =>
    cases hr
    exact .none
  | succ n ih =>
    unfold settledRequired at hr
    split at hr
    · next q marks' hround => exact .round (h.of_done hround) (ih hr)
    · cases hr

end

/-! ## Patterns -/

/-- From the one place to the other the text is as the pattern says. Of what must not be found at a place,
nothing is said. -/
def Way (s : Subject) : Tree → Flags → Stop → Stop → Prop
  | .empty, _, x, y => y = x
  | .seq a b, flags, x, z => ∃ y, Way s a flags x y ∧ Way s b flags y z
  | .alt a b, flags, x, y => Way s a flags x y ∨ Way s b flags x y
  | .char negated c, flags, x, y => Takes s (fun d => charMatches flags c d != negated) x y
  | .any, flags, x, y => Takes s (fun d => flags.dotAll || d != newline) x y
  | .set negated members, flags, x, y => Takes s (setMatches flags negated members) x y
  | .anchor a, flags, x, y => anchorHolds flags s a x.1 = true ∧ y = x
  | .group none add drop body, flags, x, y => Way s body (flags.inside add drop) x y
  | .group (some i) add drop body, flags, x, z =>
    ∃ y, Way s body (flags.inside add drop) (x.1, x.2.set (2 * i - 2) (some x.1)) y ∧
      z = (y.1, y.2.set (2 * i - 1) (some y.1))
  | .atomic body, flags, x, y => Way s body flags x y
  | .look behind false body, flags, x, y =>
    (behind.map Width.least).getD 0 ≤ x.1 ∧
      ∃ z, Way s body flags (x.1 - (behind.map Width.least).getD 0, x.2) z ∧ y = (x.1, z.2)
  | .look _ true _, _, x, y => y = x
  | .backref i, flags, x, y =>
    ∃ first last, span? x.2 i = some (first, last) ∧ repeats flags s first x.1 (last - first) = true ∧
      y = (x.1 + (last - first), x.2)
  | .cond i present absent, flags, x, y =>
    if (span? x.2 i).isSome then Way s present flags x y else Way s absent flags x y
  | .loop _ least most body, flags, x, y =>
    ∃ n, least ≤ n ∧ Within n (most.map (max least)) ∧ Rounds (Way s body flags) n x y

/-- The least number of rounds, and then more of them within what is left of the bound. -/
theorem Way.loop {s : Subject} {mode : LoopMode} {least : Nat} {most : Option Nat} {body : Tree}
    {flags : Flags} {x y z : Stop} (hleast : Rounds (Way s body flags) least x y)
    (hmore : UpTo (Way s body flags) (most.map (· - least)) y z) :
    Way s (.loop mode least most body) flags x z := by
  obtain ⟨n, hn, hmore⟩ := hmore
  refine ⟨least + n, Nat.le_add_right _ _, ?_, hleast.append hmore⟩
  intro k hk
  obtain ⟨bound, rfl, rfl⟩ := Option.map_eq_some_iff.mp hk
  have hbound : n ≤ bound - least := hn _ rfl
  omega

theorem loop_follows {s : Subject} {body : Tree} {flags : Flags}
    (h : Follows (run s body flags) (Way s body flags)) (mode : LoopMode) (least : Nat) (most : Option Nat) :
    Follows (run s (.loop mode least most body) flags) (Way s (.loop mode least most body) flags) := by
  intro next p marks r hr
  cases mode with
  | greedy =>
    obtain ⟨z, ⟨y, hleast, hmore⟩, hr⟩ :=
      (required_follows h least).comp (greedy_follows h _ _ _) next p marks r hr
    exact ⟨z, .loop hleast hmore, hr⟩
  | lazy =>
    obtain ⟨z, ⟨y, hleast, hmore⟩, hr⟩ :=
      (required_follows h least).comp (lazily_follows h _ _ _) next p marks r hr
    exact ⟨z, .loop hleast hmore, hr⟩
  | possessive =>
    simp only [run] at hr
    split at hr
    · next q marks' hleast =>
      exact ⟨_, .loop (rounds_of_settledRequired h least hleast) (settled_upTo h _ _ q marks'), hr⟩
    · cases hr

/-- What follows a pattern is tried at the end of a way through it. -/
theorem run_follows (s : Subject) (t : Tree) (flags : Flags) : Follows (run s t flags) (Way s t flags) := by
  induction t generalizing flags with
  | empty => exact fun next p marks r hr => ⟨(p, marks), rfl, hr⟩
  | seq a b iha ihb => exact (iha flags).comp (ihb flags)
  | alt a b iha ihb =>
    intro next p marks r hr
    simp only [run] at hr
    split at hr
    · next found hfirst =>
      cases hr
      obtain ⟨y, hy, hr⟩ := iha flags _ _ _ _ hfirst
      exact ⟨y, .inl hy, hr⟩
    · obtain ⟨y, hy, hr⟩ := ihb flags _ _ _ _ hr
      exact ⟨y, .inr hy, hr⟩
  | char negated c => exact takeOne_follows s _
  | any => exact takeOne_follows s _
  | set negated members => exact takeOne_follows s _
  | anchor a =>
    intro next p marks r hr
    simp only [run] at hr
    split at hr
    · next hholds => exact ⟨(p, marks), ⟨hholds, rfl⟩, hr⟩
    · cases hr
  | group index add drop body ih =>
    cases index with
    | none => exact ih _
    | some i =>
      intro next p marks r hr
      -- the group's end is noted before what follows is tried
      obtain ⟨y, hy, hr⟩ := ih _ _ _ _ _ hr
      exact ⟨_, ⟨y, hy, rfl⟩, hr⟩
  | atomic body ih =>
    intro next p marks r hr
    simp only [run] at hr
    split at hr
    · next q marks' hbody => exact ⟨(q, marks'), (ih flags).of_done hbody, hr⟩
    · cases hr
  | look behind negated body ih =>
    intro next p marks r hr
    simp only [run] at hr
    split at hr
    · next q marks' hfound =>
      split at hfound
      · next hback => exact ⟨(p, marks'), ⟨hback, (q, marks'), (ih flags).of_done hfound, rfl⟩, hr⟩
      · cases hfound
    · exact ⟨(p, marks), rfl, hr⟩
    · cases hr
  | backref i =>
    intro next p marks r hr
    simp only [run] at hr
    split at hr
    · next first last hspan =>
      split at hr
      · next hrepeats => exact ⟨_, ⟨first, last, hspan, hrepeats, rfl⟩, hr⟩
      · cases hr
    · cases hr
  | cond i present absent ihp iha =>
    intro next p marks r hr
    simp only [run] at hr
    split at hr
    · next htook =>
      obtain ⟨y, hy, hr⟩ := ihp flags _ _ _ _ hr
      exact ⟨y, by rwa [Way, if_pos htook], hr⟩
    · next htook =>
      obtain ⟨y, hy, hr⟩ := iha flags _ _ _ _ hr
      exact ⟨y, by rwa [Way, if_neg htook], hr⟩
  | loop mode least most body ih => exact loop_follows (ih flags) mode least most

/-! ## Where ways lead -/

/-- From the one place to the other it goes forward, and not behind the end of the text. -/
def Advances (s : Subject) (x y : Stop) : Prop := x.1 ≤ y.1 ∧ (x.1 ≤ s.size → y.1 ≤ s.size)

section

variable {s : Subject} {x y z : Stop}

theorem Advances.refl (x : Stop) : Advances s x x := ⟨Nat.le_refl _, id⟩

theorem Advances.trans (hxy : Advances s x y) (hyz : Advances s y z) : Advances s x z :=
  ⟨Nat.le_trans hxy.1 hyz.1, fun hx => hyz.2 (hxy.2 hx)⟩

theorem Takes.advances {holds : Nat → Bool} (h : Takes s holds x y) : Advances s x y := by
  obtain ⟨c, hc, -, rfl⟩ := h
  exact ⟨Nat.le_succ _, fun _ => Nat.succ_le_of_lt (Array.getElem?_eq_some_iff.mp hc).1⟩

theorem Rounds.advances {leg : Stop → Stop → Prop} {n : Nat} (h : Rounds leg n x y)
    (hleg : ∀ x y, leg x y → Advances s x y) : Advances s x y :=
  h.lift (Advances s) hleg .refl fun _ _ _ => .trans

/-- A text that is repeated at a place ends before the text does. -/
theorem le_size_of_repeats {flags : Flags} {i p n : Nat} (h : repeats flags s i p n = true) (hn : n ≠ 0) :
    p + n ≤ s.size := by
  induction n generalizing i p with
  | zero => exact absurd rfl hn
  | succ n ih =>
    unfold repeats at h
    split at h
    · next a b ha hb =>
      have hp : p < s.size := (Array.getElem?_eq_some_iff.mp hb).1
      rw [Bool.and_eq_true] at h
      by_cases hlast : n = 0
      · omega
      · have hrest := ih h.2 hlast
        omega
    · cases h

theorem Way.advances {t : Tree} {flags : Flags} (h : Way s t flags x y) : Advances s x y := by
  induction t generalizing flags x y with
  | empty =>
    cases h
    exact .refl x
  | seq a b iha ihb =>
    obtain ⟨z, hfirst, hsecond⟩ := h
    exact (iha hfirst).trans (ihb hsecond)
  | alt a b iha ihb => exact h.elim iha ihb
  | char negated c => exact Takes.advances h
  | any => exact Takes.advances h
  | set negated members => exact Takes.advances h
  | anchor a =>
    obtain ⟨-, rfl⟩ := h
    exact .refl y
  | group index add drop body ih =>
    cases index with
    | none => exact ih h
    | some i =>
      obtain ⟨z, hbody, rfl⟩ := h
      have hadvances := ih hbody
      exact hadvances
  | atomic body ih => exact ih h
  | look behind negated body ih =>
    -- wherever it looks, the way goes on where it was
    cases negated with
    | false =>
      obtain ⟨-, z, -, rfl⟩ := h
      exact .refl x
    | true =>
      cases h
      exact .refl x
  | backref i =>
    obtain ⟨first, last, -, hrepeats, rfl⟩ := h
    refine ⟨Nat.le_add_right _ _, fun hx => ?_⟩
    by_cases hempty : last - first = 0
    · rwa [hempty]
    · exact le_size_of_repeats hrepeats hempty
  | cond i present absent ihp iha =>
    unfold Way at h
    split at h
    · exact ihp h
    · exact iha h
  | loop mode least most body ih =>
    obtain ⟨n, -, -, hrounds⟩ := h
    exact hrounds.advances fun _ _ => ih

end

/-! ## Matches -/

/-- The groups where nothing has been read. -/
def blank (r : Pattern) : Marks := List.replicate (2 * r.groups) none

/-- The match is a way through the whole pattern. -/
def Describes (r : Pattern) (s : Subject) (m : Match) : Prop :=
  Way s r.tree r.flags (m.first, r.blank) (m.last, m.marks)

/-- A match at a place begins there, is a way through the pattern, and is not empty if it must not be. -/
theorem describes_of_matchAt {r : Pattern} {s : Subject} {moving : Bool} {p : Nat} {m : Match}
    (h : matchAt r s moving p = some m) :
    m.first = p ∧ r.Describes s m ∧ (moving = true → m.last ≠ p) := by
  unfold matchAt at h
  split at h
  · cases h
  · simp only at h
    split at h
    · next q marks hrun =>
      cases h
      obtain ⟨y, hway, haccept⟩ := run_follows s r.tree r.flags _ _ _ _ hrun
      split at haccept
      · cases haccept
      · next hempty =>
        cases haccept
        exact ⟨rfl, hway, by simpa using hempty⟩
    · cases h

/-- A group that took part in a match does not end before it begins. -/
theorem Match.span?_le {m : Match} {group first last : Nat} (hm : m.first ≤ m.last)
    (h : m.span? group = some (first, last)) : first ≤ last := by
  unfold Match.span? at h
  split at h
  · cases h
    exact hm
  · unfold Pattern.span? at h
    split at h
    · split at h
      · next hle =>
        cases h
        exact hle
      · cases h
    · cases h

end Polyscan.Pattern
