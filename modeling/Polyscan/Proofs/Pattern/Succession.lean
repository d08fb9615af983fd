import Polyscan.Proofs.Pattern

/-!
The succession of matches in a text. From the end of one match the next is the first one that begins there or
later; after an empty match, an empty one at the same place does not count. All matches that there are come
in this way, and no two of them share a character.
-/
namespace Polyscan.Pattern

variable {r : Pattern} {s : Subject}

/-- The match at `q` in a search from `p` on, which may have to move on from there. -/
def matchFrom (r : Pattern) (s : Subject) (moving : Bool) (p q : Nat) : Option Match :=
  matchAt r s (moving && q == p) q

/-- The matches that follow one another from a place to the end of the text. -/
inductive Successive (r : Pattern) (s : Subject) : Bool → Nat → List Match → Prop
  | last {moving : Bool} {p : Nat} (hnone : ∀ q, p ≤ q → q ≤ s.size → matchFrom r s moving p q = none) :
      Successive r s moving p []
  | next {moving : Bool} {p : Nat} {m : Match} {ms : List Match} (hfrom : p ≤ m.first)
      (hsize : m.first ≤ s.size)
      (hbefore : ∀ q, p ≤ q → q < m.first → matchFrom r s moving p q = none)
      (hmatch : matchFrom r s moving p m.first = some m)
      (hrest : Successive r s (m.last == m.first) m.last ms) : Successive r s moving p (m :: ms)

/-! ## Searching -/

theorem matchFrom_self (moving : Bool) (p : Nat) : matchFrom r s moving p p = matchAt r s moving p := by
  simp [matchFrom]

theorem matchFrom_of_lt (moving : Bool) {p q : Nat} (h : p < q) :
    matchFrom r s moving p q = matchFrom r s false (p + 1) q := by
  have hne : (q == p) = false := by simpa using Nat.ne_of_gt h
  simp [matchFrom, hne]

/-- What is found is the first match within reach. -/
theorem findFrom_eq_some {moving : Bool} {p count : Nat} {m : Match}
    (h : findFrom r s moving p count = some m) :
    p ≤ m.first ∧ m.first ≤ p + count ∧ matchFrom r s moving p m.first = some m ∧
      ∀ q, p ≤ q → q < m.first → matchFrom r s moving p q = none := by
  have hhere : ∀ {moving : Bool} {p : Nat}, matchAt r s moving p = some m →
      m.first = p ∧ matchFrom r s moving p m.first = some m ∧
        ∀ q, p ≤ q → q < m.first → matchFrom r s moving p q = none := by
    intro moving p hm
    have hfirst := (describes_of_matchAt hm).1
    refine ⟨hfirst, ?_, fun q hpq hq => absurd hpq (by omega)⟩
    rw [hfirst, matchFrom_self]
    exact hm
  induction count generalizing moving p with
  | zero =>
    obtain ⟨hfirst, hmatch, hbefore⟩ := hhere h
    exact ⟨Nat.le_of_eq hfirst.symm, Nat.le_of_eq hfirst, hmatch, hbefore⟩
  | succ count ih =>
    unfold findFrom at h
    split at h
    · next found hfound =>
      cases h
      obtain ⟨hfirst, hmatch, hbefore⟩ := hhere hfound
      exact ⟨Nat.le_of_eq hfirst.symm, by omega, hmatch, hbefore⟩
    · next hnone =>
      obtain ⟨hfrom, hto, hmatch, hbefore⟩ := ih h
      refine ⟨by omega, by omega, ?_, fun q hpq hq => ?_⟩
      · rw [matchFrom_of_lt moving (by omega)]
        exact hmatch
      · rcases Nat.eq_or_lt_of_le hpq with rfl | hlt
        · rw [matchFrom_self]
          exact hnone
        · rw [matchFrom_of_lt moving hlt]
          exact hbefore q hlt hq

theorem findFrom_eq_none {moving : Bool} {p count : Nat} (h : findFrom r s moving p count = none) :
    ∀ q, p ≤ q → q ≤ p + count → matchFrom r s moving p q = none := by
  induction count generalizing moving p with
  | zero =>
    intro q hpq hq
    have hqp : q = p := by omega
    rw [hqp, matchFrom_self]
    exact h
  | succ count ih =>
    unfold findFrom at h
    split at h
    · cases h
    · next hnone =>
      intro q hpq hq
      rcases Nat.eq_or_lt_of_le hpq with rfl | hlt
      · rw [matchFrom_self]
        exact hnone
      · rw [matchFrom_of_lt moving hlt]
        exact ih h q hlt (by omega)

/-- The matches that are listed from a place on follow one another, and no match is missing at the end. -/
theorem successive_matchesFrom {fuel p : Nat} {moving : Bool} (hp : p ≤ s.size)
    (hfuel : 2 * (s.size - p) + (if moving then 1 else 2) ≤ fuel) :
    Successive r s moving p (matchesFrom r s fuel moving p) := by
  -- each match ends later than the one before it, or it is empty and the next one is not
  induction fuel generalizing p moving with
  | zero =>
    split at hfuel <;> omega
  | succ fuel ih =>
    unfold matchesFrom
    split
    · next hnone =>
      refine .last fun q hpq hq => findFrom_eq_none hnone q hpq ?_
      omega
    · next m hfound =>
      obtain ⟨hfrom, hto, hmatch, hbefore⟩ := findFrom_eq_some hfound
      have hsize : m.first ≤ s.size := by omega
      have hadvances := (describes_of_matchAt hmatch).2.1.advances
      have hlast : m.last ≤ s.size := hadvances.2 hsize
      have hends : m.first ≤ m.last := hadvances.1
      refine .next hfrom hsize hbefore hmatch (ih hlast ?_)
      by_cases hempty : m.last = m.first
      · have hmoved : moving = true → m.first ≠ p := by
          intro hmoving hstays
          have hmust := (describes_of_matchAt hmatch).2.2
          rw [hmoving, hstays] at hmust
          simp [hempty, hstays] at hmust
        rw [if_pos (by simpa using hempty)]
        cases moving with
        | true =>
          have hne := hmoved rfl
          simp only [if_true] at hfuel
          omega
        | false =>
          simp only [Bool.false_eq_true, if_false] at hfuel
          omega
      · rw [if_neg (by simpa using hempty)]
        split at hfuel <;> omega

/-- The matches in a text follow one another from its beginning to its end. -/
theorem successive_matchesIn (r : Pattern) (s : Subject) : Successive r s false 0 (matchesIn r s) :=
  successive_matchesFrom (Nat.zero_le _) (by simp)

/-! ## Places of matches -/

section

variable {moving : Bool} {p : Nat} {ms : List Match} {m : Match}

/-- A property of every single match holds for all successive matches. -/
theorem Successive.forall_mem {good : Match → Prop} (h : Successive r s moving p ms)
    (hgood : ∀ {moving p m}, m.first ≤ s.size → matchFrom r s moving p m.first = some m → good m) :
    ∀ m ∈ ms, good m := by
  induction h with
  | last hnone => simp
  | next hfrom hsize hbefore hmatch hrest ih => exact List.forall_mem_cons.mpr ⟨hgood hsize hmatch, ih⟩

/-- The matches are ways through the pattern. -/
theorem Successive.describes (h : Successive r s moving p ms) : ∀ m ∈ ms, r.Describes s m :=
  h.forall_mem fun _ hmatch => (describes_of_matchAt hmatch).2.1

theorem Successive.bounds (h : Successive r s moving p ms) :
    ∀ m ∈ ms, m.first ≤ m.last ∧ m.last ≤ s.size := by
  refine h.forall_mem fun hsize hmatch => ?_
  have hadvances := (describes_of_matchAt hmatch).2.1.advances
  exact ⟨hadvances.1, hadvances.2 hsize⟩

theorem Successive.le_first (h : Successive r s moving p ms) : ∀ m ∈ ms, p ≤ m.first := by
  induction h with
  | last hnone => simp
  | next hfrom hsize hbefore hmatch hrest ih =>
    have hadvances := (describes_of_matchAt hmatch).2.1.advances
    refine List.forall_mem_cons.mpr ⟨hfrom, fun n hn => ?_⟩
    exact Nat.le_trans hfrom (Nat.le_trans hadvances.1 (ih n hn))

/-- No two matches share a character. -/
theorem Successive.pairwise (h : Successive r s moving p ms) : ms.Pairwise fun m n => m.last ≤ n.first := by
  induction h with
  | last hnone => exact .nil
  | next hfrom hsize hbefore hmatch hrest ih => exact .cons hrest.le_first ih

/-- Where a match can begin, one of those in the succession begins, or an earlier one is not over yet. -/
theorem Successive.exists_cover (h : Successive r s moving p ms) {q : Nat} (hp : p ≤ q) (hq : q ≤ s.size)
    (hmatch : ∀ moving, (matchAt r s moving q).isSome) : ∃ m ∈ ms, m.first = q ∨ m.first < q ∧ q < m.last := by
  have hfound : ∀ moving p, matchFrom r s moving p q ≠ none :=
    fun moving p => Option.isSome_iff_ne_none.mp (hmatch (moving && q == p))
  induction h with
  | last hnone => exact absurd (hnone q hp hq) (hfound _ _)
  | @next moving p m ms hfrom hsize hbefore hmatch hrest ih =>
    rcases Nat.lt_trichotomy q m.first with hlt | heq | hgt
    · exact absurd (hbefore q hp hlt) (hfound _ _)
    · exact ⟨m, List.mem_cons_self, .inl heq.symm⟩
    · by_cases hover : m.last ≤ q
      · obtain ⟨n, hn, hcover⟩ := ih hover
        exact ⟨n, List.mem_cons_of_mem m hn, hcover⟩
      · exact ⟨m, List.mem_cons_self, .inr ⟨hgt, Nat.lt_of_not_le hover⟩⟩

end

/-- A match does not end before it begins. -/
theorem first_le_last_of_mem {m : Match} (h : m ∈ matchesIn r s) : m.first ≤ m.last :=
  ((successive_matchesIn r s).bounds m h).1

end Polyscan.Pattern
