import Polyscan.Proofs.Pattern

/-!
Completeness of backtracking. A pattern without possessive parts, whose loops advance in every round, fails at
a place only if no way through it leads to a place from which the continuation succeeds.
-/
namespace Polyscan.Pattern

variable {s : Subject}

/-! ## Patterns that move -/

/-- Each leg begins at a character of the text and ends behind it. -/
def Moving (s : Subject) (leg : Stop → Stop → Prop) : Prop := ∀ x y, leg x y → x.1 < y.1 ∧ x.1 < s.size

/-- Each way through the pattern takes a character. -/
def Tree.moves : Tree → Bool
  | .char .. | .any | .set .. => true
  | .seq a b => a.moves || b.moves
  | .alt a b | .cond _ a b => a.moves && b.moves
  | .group _ _ _ body | .atomic body => body.moves
  | .loop _ least _ body => least != 0 && body.moves
  | .empty | .anchor _ | .look .. | .backref _ => false

theorem takes_moving (s : Subject) (holds : Nat → Bool) : Moving s (Takes s holds) := by
  rintro x y ⟨c, hc, -, rfl⟩
  exact ⟨Nat.lt_succ_self _, (Array.getElem?_eq_some_iff.mp hc).1⟩

theorem way_moving {t : Tree} (ht : t.moves = true) (flags : Flags) : Moving s (Way s t flags) := by
  induction t generalizing flags with
  | char negated c => exact takes_moving s _
  | any => exact takes_moving s _
  | set negated members => exact takes_moving s _
  | seq a b iha ihb =>
    rintro x y ⟨z, hfirst, hsecond⟩
    have hforth := hfirst.advances.1
    have hforth' := hsecond.advances.1
    rw [Tree.moves, Bool.or_eq_true] at ht
    rcases ht with ha | hb
    · have hmoved := iha ha flags x z hfirst
      omega
    · have hmoved := ihb hb flags z y hsecond
      omega
  | alt a b iha ihb =>
    rw [Tree.moves, Bool.and_eq_true] at ht
    exact fun x y h => h.elim (iha ht.1 flags x y) (ihb ht.2 flags x y)
  | group index add drop body ih =>
    cases index with
    | none => exact ih ht _
    | some i =>
      rintro x y ⟨z, hbody, rfl⟩
      have hmoved := ih ht _ _ z hbody
      exact hmoved
  | atomic body ih => exact ih ht flags
  | cond i present absent ihp iha =>
    rw [Tree.moves, Bool.and_eq_true] at ht
    intro x y h
    unfold Way at h
    split at h
    · exact ihp ht.1 flags x y h
    · exact iha ht.2 flags x y h
  | loop mode least most body ih =>
    rw [Tree.moves, Bool.and_eq_true, bne_iff_ne] at ht
    rintro x y ⟨n, hleast, -, hrounds⟩
    cases hrounds with
    | none => exact absurd (Nat.le_zero.mp hleast) ht.1
    | @round n _ z _ hround hrest =>
      have hmoved := ih ht.2 flags x z hround
      have hforth := (hrest.advances fun _ _ h => h.advances).1
      omega
  | empty => cases ht
  | anchor a => cases ht
  | look behind negated body => cases ht
  | backref i => cases ht

/-! ## Steps that find their legs -/

/-- A step fails only where no leg leads to a place at which what follows succeeds. -/
def Finds (step : Next → Next) (leg : Stop → Stop → Prop) : Prop :=
  ∀ (next : Next) (x y : Stop), leg x y → (next y.1 y.2).isSome → (step next x.1 x.2).isSome

theorem takeOne_finds (s : Subject) (holds : Nat → Bool) : Finds (takeOne s holds) (Takes s holds) := by
  rintro next x y ⟨c, hc, hholds, rfl⟩ hnext
  rw [takeOne, hc]
  simp only
  rwa [if_pos hholds]

section

variable {step step' : Next → Next} {leg leg' : Stop → Stop → Prop} {next : Next} {m n fuel : Nat}
  {left last : Option Nat} {x y : Stop}

/-- A step before another one. -/
theorem Finds.comp (h : Finds step leg) (h' : Finds step' leg') :
    Finds (fun next => step (step' next)) fun x z => ∃ y, leg x y ∧ leg' y z := by
  rintro next x z ⟨y, hy, hz⟩ hnext
  exact h _ x y hy (h' next y z hz hnext)

theorem Rounds.split (h : Rounds leg (m + n) x y) : ∃ z, Rounds leg m x z ∧ Rounds leg n z y := by
  induction m generalizing x with
  | zero => exact ⟨x, .none, by rwa [Nat.zero_add] at h⟩
  | succ m ih =>
    rw [Nat.add_right_comm] at h
    cases h with
    | round hround hrest =>
      obtain ⟨z, hm, hn⟩ := ih hrest
      exact ⟨z, .round hround hm, hn⟩

theorem required_finds (h : Finds step leg) (n : Nat) :
    Finds (fun next => required step next n) (Rounds leg n) := by
  induction n with
  | zero =>
    intro next x y hrounds hnext
    cases hrounds
    exact hnext
  | succ n ih =>
    intro next x y hrounds hnext
    cases hrounds with
    | round hround hrest => exact h _ _ _ hround (ih _ _ _ hrest hnext)

theorem mayGoOn_of_within (h : Within (n + 1) left) :
    mayGoOn left = true ∧ Within n (left.map (· - 1)) := by
  cases left with
  | none => exact ⟨rfl, fun k hk => nomatch hk⟩
  | some k =>
    have hk : n + 1 ≤ k := h k rfl
    cases k with
    | zero => cases hk
    | succ k =>
      refine ⟨rfl, ?_⟩
      rintro _ ⟨⟩
      exact Nat.le_of_succ_le_succ hk

/-- The last round started before this place, so that another one may start here. -/
theorem bne_of_forall_lt {p : Nat} (h : ∀ q ∈ last, q < p) : (last != some p) = true := by
  rw [bne_iff_ne]
  rintro rfl
  exact Nat.lt_irrefl p (h p rfl)

/-- Each round moves, so none starts where the last one started, and the rest of the text is fuel enough. -/
theorem greedy_finds (h : Finds step leg) (hleg : Moving s leg) (hrounds : Rounds leg n x y)
    (hnext : (next y.1 y.2).isSome) (hfuel : s.size < fuel + x.1) (hleft : Within n left)
    (hlast : ∀ q ∈ last, q < x.1) : (greedy step next fuel left last x.1 x.2).isSome := by
  induction hrounds generalizing fuel left last with
  | none =>
    cases fuel with
    | zero => exact hnext
    | succ fuel =>
      unfold greedy
      split
      · split
        · rfl
        · exact hnext
      · exact hnext
  | @round n x z y hround hrest ih =>
    have hmoved := hleg x z hround
    cases fuel with
    | zero => omega
    | succ fuel =>
      obtain ⟨hgo, hleft⟩ := mayGoOn_of_within hleft
      have hmore : (greedy step next fuel (left.map (· - 1)) (some x.1) z.1 z.2).isSome :=
        ih hnext (by omega) hleft (by simpa using hmoved.1)
      obtain ⟨r, hr⟩ := Option.isSome_iff_exists.mp (h _ x z hround hmore)
      rw [greedy, hgo, bne_of_forall_lt hlast, Bool.and_self, if_pos rfl, hr]
      rfl

theorem lazily_finds (h : Finds step leg) (hleg : Moving s leg) (hrounds : Rounds leg n x y)
    (hnext : (next y.1 y.2).isSome) (hfuel : s.size < fuel + x.1) (hleft : Within n left)
    (hlast : ∀ q ∈ last, q < x.1) : (lazily step next fuel left last x.1 x.2).isSome := by
  induction hrounds generalizing fuel left last with
  | none =>
    cases fuel with
    | zero => exact hnext
    | succ fuel =>
      obtain ⟨r, hr⟩ := Option.isSome_iff_exists.mp hnext
      rw [lazily, hr]
      rfl
  | @round n x z y hround hrest ih =>
    have hmoved := hleg x z hround
    cases fuel with
    | zero => omega
    | succ fuel =>
      obtain ⟨hgo, hleft⟩ := mayGoOn_of_within hleft
      have hmore : (lazily step next fuel (left.map (· - 1)) (some x.1) z.1 z.2).isSome :=
        ih hnext (by omega) hleft (by simpa using hmoved.1)
      unfold lazily
      split
      · rfl
      · rw [hgo, bne_of_forall_lt hlast, Bool.and_self, if_pos rfl]
        exact h _ x z hround hmore

end

/-! ## Patterns that go back -/

/-- No part of the pattern is settled for good, and no loop stands still. -/
def Tree.retries : Tree → Bool
  | .empty | .char .. | .any | .set .. | .anchor _ | .backref _ => true
  | .seq a b | .alt a b | .cond _ a b => a.retries && b.retries
  | .group _ _ _ body => body.retries
  | .loop mode _ _ body => mode != .possessive && body.moves && body.retries
  | .atomic _ | .look .. => false

theorem loop_finds {body : Tree} {flags : Flags} (h : Finds (run s body flags) (Way s body flags))
    (hbody : body.moves = true) {mode : LoopMode} (hmode : mode ≠ .possessive) (least : Nat)
    (most : Option Nat) :
    Finds (run s (.loop mode least most body) flags) (Way s (.loop mode least most body) flags) := by
  rintro next x y ⟨n, hleast, hmost, hrounds⟩ hnext
  obtain ⟨more, rfl⟩ := Nat.exists_eq_add_of_le hleast
  obtain ⟨z, hfirst, hrest⟩ := hrounds.split
  have hfuel : s.size < s.size + 2 + z.1 := by omega
  have hleft : Within more (most.map (· - least)) := by
    intro k hk
    obtain ⟨bound, rfl, rfl⟩ := Option.map_eq_some_iff.mp hk
    have hbound : least + more ≤ max least bound := hmost _ rfl
    omega
  have hlast : ∀ q ∈ (none : Option Nat), q < z.1 := fun q hq => nomatch hq
  cases mode with
  | greedy =>
    exact required_finds h least _ x z hfirst
      (greedy_finds h (way_moving hbody flags) hrest hnext hfuel hleft hlast)
  | lazy =>
    exact required_finds h least _ x z hfirst
      (lazily_finds h (way_moving hbody flags) hrest hnext hfuel hleft hlast)
  | possessive => exact absurd rfl hmode

/-- Such a pattern succeeds wherever a way through it leads to a place at which what follows succeeds. -/
theorem run_finds {t : Tree} (ht : t.retries = true) (flags : Flags) :
    Finds (run s t flags) (Way s t flags) := by
  induction t generalizing flags with
  | empty =>
    rintro next x y rfl hnext
    exact hnext
  | seq a b iha ihb =>
    rw [Tree.retries, Bool.and_eq_true] at ht
    exact (iha ht.1 flags).comp (ihb ht.2 flags)
  | alt a b iha ihb =>
    rw [Tree.retries, Bool.and_eq_true] at ht
    intro next x y h hnext
    unfold run
    split
    · rfl
    · next hfirst =>
      rcases h with h | h
      · have hfound := iha ht.1 flags next x y h hnext
        rw [hfirst] at hfound
        cases hfound
      · exact ihb ht.2 flags next x y h hnext
  | char negated c => exact takeOne_finds s _
  | any => exact takeOne_finds s _
  | set negated members => exact takeOne_finds s _
  | anchor a =>
    rintro next x y ⟨hholds, rfl⟩ hnext
    simp only [run]
    rwa [if_pos hholds]
  | group index add drop body ih =>
    cases index with
    | none => exact ih ht _
    | some i =>
      rintro next x y ⟨z, hbody, rfl⟩ hnext
      exact ih ht _ _ (x.1, x.2.set (2 * i - 2) (some x.1)) z hbody hnext
  | backref i =>
    rintro next x y ⟨first, last, hspan, hrepeats, rfl⟩ hnext
    simp only [run, hspan]
    rw [if_pos hrepeats]
    exact hnext
  | cond i present absent ihp iha =>
    rw [Tree.retries, Bool.and_eq_true] at ht
    intro next x y h hnext
    unfold Way at h
    unfold run
    split at h
    · next htook =>
      rw [if_pos htook]
      exact ihp ht.1 flags next x y h hnext
    · next htook =>
      rw [if_neg htook]
      exact iha ht.2 flags next x y h hnext
  | loop mode least most body ih =>
    simp only [Tree.retries, Bool.and_eq_true, bne_iff_ne] at ht
    exact loop_finds (ih ht.2 flags) ht.1.2 ht.1.1 least most
  | atomic body => cases ht
  | look behind negated body => cases ht

/-- Wherever a search stops and a way through the whole pattern begins, there is a match. -/
theorem matchAt_isSome {r : Pattern} {moving : Bool} {p : Nat} {y : Stop} (hr : r.tree.retries = true)
    (hbegin : r.mayBegin s p = true) (hway : Way s r.tree r.flags (p, r.blank) y)
    (hmoved : moving = true → y.1 ≠ p) : (matchAt r s moving p).isSome := by
  let accept : Next := fun q marks => if moving && q == p then none else some (q, marks)
  have hend : (accept y.1 y.2).isSome := by
    have hfree : ¬ (moving && y.1 == p) = true := by
      rw [Bool.and_eq_true, beq_iff_eq]
      exact fun h => hmoved h.1 h.2
    simp only [accept]
    rw [if_neg hfree]
    rfl
  obtain ⟨found, hfound⟩ := Option.isSome_iff_exists.mp (run_finds hr r.flags accept _ y hway hend)
  have hrun : run s r.tree r.flags accept p (List.replicate (2 * r.groups) none) = some found := hfound
  simp only [matchAt]
  rw [hbegin, if_neg (by decide), hrun]
  rfl

end Polyscan.Pattern
