import Mathlib.Data.Set.Lattice
import Mathlib.Order.CompletePartialOrder
import Polyscan.Proofs.Registration.Interleaving

/-!
`addPlugins` as a sequence of moves. Work that owns attempts moves these attempts and no others, so pieces of
work with disjoint attempts can have their turns interleaved. The rounds of `Work.gatherAll` and `Work.gather`
are therefore one of the sequences of moves.
-/
namespace Polyscan.Registering

open Analyzer Work

variable {α β : Type} {st st' st'' : Registering} {own own' others : Set Nat} {b : Analyzer}

/-! ## Moves of owned attempts -/

/-- The attempts at these positions are unchanged. -/
def Unmoved (own : Set Nat) (st st' : Registering) : Prop :=
  ∀ i ∈ own, st'.attempts[i]? = st.attempts[i]?

/-- All these positions are those of attempts. -/
def Within (own : Set Nat) (st : Registering) : Prop := ∀ i ∈ own, i < st.attempts.length

/-- Moves by work that owned the attempts of `own` and now owns those of `own'`. Attempts of others were not
moved, and new attempts of its own did not exist before. -/
structure Advances (own : Set Nat) (st : Registering) (own' : Set Nat) (st' : Registering) : Prop where
  moves : ∃ moves, st' = st.play moves
  others : ∀ i < st.attempts.length, i ∉ own → st'.attempts[i]? = st.attempts[i]?
  mine : ∀ i ∈ own', i ∈ own ∨ st.attempts.length ≤ i
  within : Within own' st'

theorem length_le_step (st : Registering) (m : Move) :
    st.attempts.length ≤ (st.step m).attempts.length := by
  cases m with
  | call p makes =>
    change _ ≤ (st.attempts ++ _).length
    rw [List.length_append]
    omega
  | turn i =>
    change _ ≤ (st.turn i).attempts.length
    unfold turn
    split
    · exact Nat.le_refl _
    · rw [List.length_set]

theorem length_le_play (st : Registering) (moves : List Move) :
    st.attempts.length ≤ (st.play moves).attempts.length := by
  induction moves generalizing st with
  | nil => exact Nat.le_refl _
  | cons m rest ih => exact Nat.le_trans (length_le_step st m) (ih (st.step m))

namespace Unmoved

theorem refl (own : Set Nat) (st : Registering) : Unmoved own st st := fun _ _ => rfl

theorem trans (h : Unmoved own st st') (h' : Unmoved own st' st'') : Unmoved own st st'' :=
  fun i hi => (h' i hi).trans (h i hi)

theorem left (h : Unmoved (own ∪ others) st st') : Unmoved own st st' :=
  fun i hi => h i (.inl hi)

theorem right (h : Unmoved (own ∪ others) st st') : Unmoved others st st' :=
  fun i hi => h i (.inr hi)

theorem within (h : Unmoved own st st') (hw : Within own st) : Within own st' := by
  intro i hi
  have hthere : ∃ x, st.attempts[i]? = some x := ⟨_, List.getElem?_eq_getElem (hw i hi)⟩
  obtain ⟨x, hx⟩ := hthere
  rw [← h i hi] at hx
  exact (List.getElem?_eq_some_iff.mp hx).1

end Unmoved

namespace Advances

theorem refl (hw : Within own st) : Advances own st own st where
  moves := ⟨[], rfl⟩
  others _ _ _ := rfl
  mine _ hi := .inl hi
  within := hw

theorem trans {own'' : Set Nat} (h : Advances own st own' st') (h' : Advances own' st' own'' st'') :
    Advances own st own'' st'' := by
  obtain ⟨moves, hmoves⟩ := h.moves
  obtain ⟨more, hmore⟩ := h'.moves
  have hgrown : st.attempts.length ≤ st'.attempts.length := hmoves ▸ length_le_play st moves
  refine
    { moves := ⟨moves ++ more, by rw [play_append, ← hmoves, ← hmore]⟩
      others := ?_
      mine := ?_
      within := h'.within }
  · intro i hi hnot
    have hnot' : i ∉ own' := by
      intro hown
      rcases h.mine i hown with hmem | hnew
      · exact hnot hmem
      · omega
    rw [h'.others i (by omega) hnot', h.others i hi hnot]
  · intro i hi
    rcases h'.mine i hi with hmem | hnew
    · exact h.mine i hmem
    · right
      omega

/-- Attempts of other work are unchanged. -/
theorem unmoved (h : Advances own st own' st') (hw : Within others st) (hdis : Disjoint own others) :
    Unmoved others st st' :=
  fun i hi => h.others i (hw i hi) fun hown => Set.disjoint_left.mp hdis hown hi

theorem disjoint (h : Advances own st own' st') (hw : Within others st) (hdis : Disjoint own others) :
    Disjoint own' others := by
  rw [Set.disjoint_left]
  intro i hi hother
  rcases h.mine i hi with hmem | hnew
  · exact Set.disjoint_left.mp hdis hmem hother
  · have hlt := hw i hother
    omega

/-- Without a move, work may give up attempts. -/
theorem keep {fewer : Set Nat} (hw : Within fewer st) (hsub : fewer ⊆ own) : Advances own st fewer st where
  moves := ⟨[], rfl⟩
  others _ _ _ := rfl
  mine _ hi := .inl (hsub hi)
  within := hw

theorem shrink {fewer : Set Nat} (h : Advances own st own' st') (hsub : fewer ⊆ own') :
    Advances own st fewer st' where
  moves := h.moves
  others := h.others
  mine i hi := h.mine i (hsub hi)
  within i hi := h.within i (hsub hi)

/-- Attempts of other work can be added on both sides. -/
theorem frame (h : Advances own st own' st') (hw : Within others st) (hdis : Disjoint own others) :
    Advances (own ∪ others) st (own' ∪ others) st' where
  moves := h.moves
  others i hi hnot := h.others i hi fun hown => hnot (.inl hown)
  mine := by
    intro i hmem
    rcases hmem with hi | hi
    · exact (h.mine i hi).imp_left .inl
    · exact .inl (.inr hi)
  within := by
    intro i hmem
    rcases hmem with hi | hi
    · exact h.within i hi
    · exact (h.unmoved hw hdis).within hw i hi

end Advances

/-! ## Work that moves attempts -/

/-- All effects of the work, from a moment at which the analyzer of `st` has become `b`, are moves of the
attempts that it owns. Others have their turns where it waits. At the end `post` holds. -/
def Follows (post : Set Nat → Registering → Prop) :
    Work Analyzer α → Set Nat → Registering → Analyzer → Prop
  | .done _, own, st, b =>
    ∃ own' st', Advances own st own' st' ∧ st'.analyzer = b ∧ post own' st'
  | .get next, own, st, b => Follows post (next b) own st b
  | .put s next, own, st, _ => Follows post next own st s
  | .wait _ next, own, st, b =>
    ∃ own' st', Advances own st own' st' ∧ st'.analyzer = b ∧
      ∀ st'', Unmoved own' st' st'' → Follows post next own' st'' st''.analyzer

/-- The rest of the work once it has its next turn. -/
def called : Work Analyzer α → Work Analyzer α
  | .wait _ next => next
  | w => w

/-- The work can have its next turn as long as no other work has moved its attempts. -/
def Turns (w : Work Analyzer α) (own : Set Nat) (st : Registering) : Prop :=
  ∀ st', Unmoved own st st' → Follows (fun _ _ => True) (called w) own st' st'.analyzer

namespace Follows

variable {post mid : Set Nat → Registering → Prop} {w : Work Analyzer α}

/-- Finished work has no effect. -/
theorem ended (r : Except Fault α) : Follows (fun _ _ => True) (.done r) own st st.analyzer :=
  ⟨∅, st, .keep (fun _ hi => hi.elim) (Set.empty_subset own), rfl, trivial⟩

/-- Moves can be made before the work goes on. -/
theorem advance (hadvance : Advances own st own' st') (h : Follows post w own' st' b) :
    Follows post w own st b := by
  induction w generalizing b with
  | done r =>
    obtain ⟨own'', st'', hrest, hb, hpost⟩ := h
    exact ⟨own'', st'', hadvance.trans hrest, hb, hpost⟩
  | get next ih => exact ih b h
  | put s next ih => exact ih h
  | wait ready next ih =>
    obtain ⟨own'', st'', hrest, hb, hnext⟩ := h
    exact ⟨own'', st'', hadvance.trans hrest, hb, hnext⟩

theorem attempt (h : Follows post w own st b) : Follows post w.attempt own st b := by
  induction w generalizing own st b with
  | done r => exact h
  | get next ih => exact ih b h
  | put s next ih => exact ih h
  | wait ready next ih =>
    obtain ⟨own', st', hadvance, hb, hnext⟩ := h
    exact ⟨own', st', hadvance, hb, fun st'' hst => ih (hnext st'' hst)⟩

theorem bind {f : α → Work Analyzer β} (h : Follows mid w own st b)
    (hpost : ∀ own st, mid own st → post own st)
    (hf : ∀ x own st, mid own st → Follows post (f x) own st st.analyzer) :
    Follows post (w.bind f) own st b := by
  induction w generalizing own st b with
  | done r =>
    obtain ⟨own', st', hadvance, hb, hmid⟩ := h
    cases r with
    | ok x => exact advance hadvance (hb ▸ hf x own' st' hmid)
    | error e => exact ⟨own', st', hadvance, hb, hpost own' st' hmid⟩
  | get next ih => exact ih b h
  | put s next ih => exact ih h
  | wait ready next ih =>
    obtain ⟨own', st', hadvance, hb, hnext⟩ := h
    exact ⟨own', st', hadvance, hb, fun st'' hst => ih (hnext st'' hst)⟩

theorem resume_iff {s : Analyzer} :
    Follows post w own st s ↔ Follows post (w.resume s).1 own st (w.resume s).2 := by
  induction w generalizing s with
  | done r => rfl
  | get next ih => exact ih s
  | put s' next ih => exact ih
  | wait ready next ih => rfl

/-- Attempts of other work are left alone until the end. -/
theorem frame {st₀ : Registering} (h : Follows post w own st b) (hsame : Unmoved others st₀ st)
    (hwithin : Within others st₀) (hdis : Disjoint own others) :
    Follows (fun both st' => ∃ mine, both = mine ∪ others ∧ Disjoint mine others ∧
      Unmoved others st₀ st' ∧ post mine st') w (own ∪ others) st b := by
  induction w generalizing own st b with
  | done r =>
    obtain ⟨own', st', hadvance, hb, hpost⟩ := h
    have hthere := hsame.within hwithin
    exact ⟨own' ∪ others, st', hadvance.frame hthere hdis, hb, own', rfl, hadvance.disjoint hthere hdis,
      hsame.trans (hadvance.unmoved hthere hdis), hpost⟩
  | get next ih => exact ih b h hsame hdis
  | put s next ih => exact ih h hsame hdis
  | wait ready next ih =>
    obtain ⟨own', st', hadvance, hb, hnext⟩ := h
    have hthere := hsame.within hwithin
    refine ⟨own' ∪ others, st', hadvance.frame hthere hdis, hb, fun st'' hst => ?_⟩
    exact ih (hnext st'' hst.left) ((hsame.trans (hadvance.unmoved hthere hdis)).trans hst.right)
      (hadvance.disjoint hthere hdis)

/-- The work up to its next wait or its end. -/
theorem resumed {s : Analyzer} (h : Follows (fun _ _ => True) w own st s) :
    ∃ own' st', Advances own st own' st' ∧ (w.resume s).2 = st'.analyzer ∧
      ((w.resume s).1.result? = none → Turns (w.resume s).1 own' st') := by
  induction w generalizing s with
  | done r =>
    obtain ⟨own', st', hadvance, rfl, -⟩ := h
    exact ⟨own', st', hadvance, rfl, nofun⟩
  | get next ih => exact ih s h
  | put s' next ih => exact ih h
  | wait ready next ih =>
    obtain ⟨own', st', hadvance, rfl, hnext⟩ := h
    exact ⟨own', st', hadvance, rfl, fun _ => hnext⟩

/-- The work run alone is a sequence of moves. -/
theorem drive (h : Follows post w own st b) : ∃ moves, (w.drive b).2 = (st.play moves).analyzer := by
  induction w generalizing own st b with
  | done r =>
    obtain ⟨own', st', hadvance, rfl, -⟩ := h
    obtain ⟨moves, rfl⟩ := hadvance.moves
    exact ⟨moves, rfl⟩
  | get next ih => exact ih b h
  | put s next ih => exact ih h
  | wait ready next ih =>
    obtain ⟨own', st', hadvance, rfl, hnext⟩ := h
    obtain ⟨moves, rfl⟩ := hadvance.moves
    obtain ⟨more, hmore⟩ := ih (hnext _ (.refl own' _))
    exact ⟨moves ++ more, by rw [play_append]; exact hmore⟩

end Follows

namespace Turns

variable {w : Work Analyzer α}

theorem unmoved (h : Turns w own st) (hst : Unmoved own st st') : Turns w own st' :=
  fun st'' hst' => h st'' (hst.trans hst')

theorem follows (h : Turns w own st) (hwithin : Within own st) :
    Follows (fun _ _ => True) w own st st.analyzer := by
  cases w with
  | wait ready next => exact ⟨own, st, .refl hwithin, rfl, h⟩
  | _ => exact h st (.refl own st)

/-- One turn of the work, after which it is finished or can have another turn. -/
theorem turn (h : Turns w own st) (hwithin : Within own st) :
    ∃ own' st', Advances own st own' st' ∧ (w.turn st.analyzer).2 = st'.analyzer ∧
      ((w.turn st.analyzer).1.result? = none → Turns (w.turn st.analyzer).1 own' st') := by
  have hnow := h st (.refl own st)
  cases w with
  | wait ready next =>
    by_cases hready : ready st.analyzer
    · simp only [Work.turn, hready, if_true]
      exact hnow.resumed
    · -- the turn passes, and all stays as it is
      simp only [Work.turn, hready]
      exact ⟨own, st, .refl hwithin, rfl, fun _ => h⟩
  | _ => exact hnow.resumed

end Turns

/-! ## Several pieces of work -/

/-- Pieces of work that own disjoint sets of attempts. -/
inductive Held (st : Registering) : List (Nat × Work Analyzer α) → Set Nat → Prop
  | nil : Held st [] ∅
  | cons {k : Nat} {w : Work Analyzer α} {ws : List (Nat × Work Analyzer α)} {mine others : Set Nat}
      (hw : Turns w mine st) (hwithin : Within mine st) (hdis : Disjoint mine others)
      (hrest : Held st ws others) : Held st ((k, w) :: ws) (mine ∪ others)

namespace Held

variable {k : Nat} {w : Work Analyzer α} {ws : List (Nat × Work Analyzer α)}

theorem within (h : Held st ws own) : Within own st := by
  induction h with
  | nil => exact fun _ hi => hi.elim
  | cons _ hwithin _ _ ih =>
    intro i hmem
    rcases hmem with hi | hi
    · exact hwithin i hi
    · exact ih i hi

theorem unmoved (h : Held st ws own) (hst : Unmoved own st st') : Held st' ws own := by
  induction h with
  | nil => exact .nil
  | cons hw hwithin hdis _ ih =>
    exact .cons (hw.unmoved hst.left) (hst.left.within hwithin) hdis (ih hst.right)

theorem snoc (h : Held st ws own) (hw : Turns w own' st) (hwithin : Within own' st)
    (hdis : Disjoint own own') : Held st (ws ++ [(k, w)]) (own ∪ own') := by
  induction h with
  | nil =>
    rw [Set.empty_union]
    simpa using Held.cons (k := k) hw hwithin (Set.disjoint_empty own') .nil
  | cons hx hxwithin hxdis hrest ih =>
    rw [Set.disjoint_union_left] at hdis
    rw [Set.union_assoc]
    exact .cons hx hxwithin (Set.disjoint_union_right.mpr ⟨hxdis, hdis.1⟩) (ih hdis.2)

end Held

/-- The rest of a round, in which some pieces of work had their turn before. -/
theorem turns_advance {todo : List (Nat × Work Analyzer α)} {g : Gathering Analyzer α}
    (hdone : Held st g.running own) (htodo : Held st todo others) (hdis : Disjoint own others) :
    ∃ own' st', Advances (own ∪ others) st own' st' ∧
      (takeTurns g st.analyzer todo).2 = st'.analyzer ∧
      Held st' (takeTurns g st.analyzer todo).1.running own' := by
  induction todo generalizing g st own others with
  | nil =>
    cases htodo
    rw [Set.union_empty]
    exact ⟨own, st, .refl hdone.within, rfl, hdone⟩
  | cons kw todo ih =>
    obtain ⟨k, w⟩ := kw
    cases htodo with
    | @cons _ _ _ mine rest hw hwithin hmine hrest =>
      obtain ⟨mine', st₁, hadvance, hanalyzer, hturns⟩ := hw.turn hwithin
      rw [Set.disjoint_union_right] at hdis
      have hothers : Disjoint mine (own ∪ rest) := Set.disjoint_union_right.mpr ⟨hdis.1.symm, hmine⟩
      have hthere : Within (own ∪ rest) st := by
        intro i h
        rcases h with hi | hi
        · exact hdone.within i hi
        · exact hrest.within i hi
      have hsame := hadvance.unmoved hthere hothers
      have hfresh := Set.disjoint_union_right.mp (hadvance.disjoint hthere hothers)
      have hboth := hadvance.frame hthere hothers
      -- a piece that is not finished joins those before it; the others are unchanged
      rw [Set.union_left_comm, takeTurns_cons]
      cases hr : (w.turn st.analyzer).1.result? with
      | some r =>
        rw [takeTurn_of_done hr, hanalyzer]
        obtain ⟨own', st', hmore, hend⟩ :=
          ih (g := { g with finished := g.finished ++ [(k, r)] }) (hdone.unmoved hsame.left)
            (hrest.unmoved hsame.right) hdis.2
        exact ⟨own', st', (hboth.shrink Set.subset_union_right).trans hmore, hend⟩
      | none =>
        rw [takeTurn_of_running hr, hanalyzer]
        obtain ⟨own', st', hmore, hend⟩ :=
          ih (g := { g with running := g.running ++ [(k, (w.turn st.analyzer).1)] })
            ((hdone.unmoved hsame.left).snoc (hturns hr) hadvance.within hfresh.1.symm)
            (hrest.unmoved hsame.right) (Set.disjoint_union_left.mpr ⟨hdis.2, hfresh.2⟩)
        rw [Set.union_comm own, Set.union_assoc] at hmore
        exact ⟨own', st', hboth.trans hmore, hend⟩

/-- Pieces of work that are finished one after another. -/
theorem inTurn_follows {running : List (Nat × Work Analyzer α)} (finished : List (Nat × Except Fault α))
    (h : Held st running own) :
    Follows (fun _ _ => True) (Gathering.inTurn finished running) own st st.analyzer := by
  induction running generalizing finished st own with
  | nil => exact .ended (.ok finished)
  | cons kw running ih =>
    obtain ⟨k, w⟩ := kw
    cases h with
    | @cons _ _ _ mine rest hw hwithin hmine hrest =>
      refine ((hw.follows hwithin).frame (.refl rest st) hrest.within hmine).attempt.bind
        (fun _ _ _ => trivial) ?_
      intro r both st' hframed
      obtain ⟨mine', rfl, hdis, hsame, -⟩ := hframed
      -- the first piece of work did not move the attempts of the others
      have hstill := hrest.unmoved hsame
      exact .advance (.keep hstill.within Set.subset_union_right) (ih (finished ++ [(k, r)]) hstill)

/-- Rounds of pieces of work that own disjoint sets of attempts are moves of these attempts. -/
theorem rounds_follow (limit : Nat) {running : List (Nat × Work Analyzer α)}
    (finished : List (Nat × Except Fault α)) (h : Held st running own) :
    Follows (fun _ _ => True) (Gathering.rounds limit running finished) own st st.analyzer := by
  induction limit generalizing running finished st own with
  | zero => exact inTurn_follows finished h
  | succ limit ih =>
    refine ⟨own, st, .refl h.within, rfl, fun st₁ hst => ?_⟩
    have hround := turns_advance (g := ⟨[], finished⟩) .nil (h.unmoved hst) (Set.empty_disjoint own)
    rw [Set.empty_union] at hround
    obtain ⟨own', st', hadvance, hanalyzer, hheld⟩ := hround
    change Follows _ (if (takeTurns ⟨[], finished⟩ st₁.analyzer running).1.running.isEmpty then _ else _) own
      st₁ (takeTurns ⟨[], finished⟩ st₁.analyzer running).2
    rw [hanalyzer]
    refine .advance hadvance ?_
    split
    · exact .ended (.ok _)
    · exact ih _ hheld

theorem gather_follows (limit : Nat) {works : List (Work Analyzer α)} (h : Held st (positioned works) own) :
    Follows (fun _ _ => True) (gather limit works) own st st.analyzer :=
  (rounds_follow limit [] h).bind (fun _ _ _ => trivial) fun _ _ _ _ => .ended _

theorem gatherAll_follows (limit : Nat) {works : List (Work Analyzer α)}
    (h : Held st (positioned works) own) :
    Follows (fun _ _ => True) (gatherAll limit works) own st st.analyzer :=
  (rounds_follow limit [] h).bind (fun _ _ _ => trivial) fun _ _ _ _ => .ended (.ok _)

/-! ## Attempts -/

variable {i : Nat} {x : Attempt}

/-- If the attempt has its turns from its next one on, it has all its turns. -/
theorem turns_of_after (hx : st.attempts[i]? = some x)
    (h : ∀ a st, st.attempts[i]? = some (x.after a) → Turns (x.after a).work {i} st) :
    Turns x.work {i} st := by
  intro st' hst
  have hx' : st'.attempts[i]? = some x := (hst i rfl).trans hx
  have hlt : i < st'.attempts.length := (List.getElem?_eq_some_iff.mp hx').1
  have hturn : st'.turn i =
      { analyzer := (x.work.turn st'.analyzer).2
        attempts := st'.attempts.set i (x.after st'.analyzer)
        completed := st'.completed ++
          (x.completion? st'.analyzer).toList.map fun engine => (x.name, engine) } := by
    simp only [turn, hx']
  have hafter : (st'.turn i).attempts[i]? = some (x.after st'.analyzer) := by
    rw [hturn]
    exact List.getElem?_set_self hlt
  have hadvance : Advances {i} st' {i} (st'.turn i) :=
    { moves := ⟨[.turn i], rfl⟩
      others := fun j _ hj => by
        rw [hturn]
        exact List.getElem?_set_ne fun hij => hj hij.symm
      mine := fun _ hj => .inl hj
      within := by
        rintro j rfl
        exact (List.getElem?_eq_some_iff.mp hafter).1 }
  have hresume : (called x.work).resume st'.analyzer =
      ((x.after st'.analyzer).work, (st'.turn i).analyzer) := by
    have hnow : (called x.work).resume st'.analyzer = x.work.turn st'.analyzer := by
      obtain ⟨name, phase⟩ := x
      cases phase <;> rfl
    rw [hnow, hturn, Attempt.turn_work]
  rw [Follows.resume_iff, hresume]
  exact .advance hadvance ((h st'.analyzer _ hafter).follows hadvance.within)

theorem turns_of_ended {name : String} {result : Except Fault Unit}  :
    Turns (Attempt.work ⟨name, .ended result⟩) {i} st :=
  fun _ _ => .ended result

theorem turns_of_making {name : String} {config : EngineConfig} {rounds : Nat} {made : Except Fault Engine}
    (hx : st.attempts[i]? = some ⟨name, .making config rounds made⟩) :
    Turns (Attempt.work ⟨name, .making config rounds made⟩) {i} st := by
  induction rounds generalizing st with
  | zero => exact turns_of_after hx fun _ _ _ => turns_of_ended
  | succ n ih => exact turns_of_after hx fun _ _ hafter => ih hafter

/-- An attempt can have its turns as long as no other work moves it. -/
theorem turns_of_attempt (hx : st.attempts[i]? = some x) : Turns x.work {i} st := by
  obtain ⟨name, phase⟩ := x
  cases phase with
  | ready p =>
    refine turns_of_after hx fun a st' hafter => ?_
    unfold Attempt.after at hafter ⊢
    split at hafter
    · exact turns_of_ended
    · exact turns_of_making hafter
  | making config rounds made => exact turns_of_making hx
  | ended result => exact turns_of_ended

/-! ## Plugins -/

theorem map_snd_positioned (works : List (Work Analyzer α)) :
    (positioned works).map Prod.snd = works := by
  apply List.ext_getElem?
  intro j
  simp [positioned, Function.comp_def]

theorem Held.of_attempts {xs : List Attempt} {ws : List (Nat × Work Analyzer Unit)} {start : Nat}
    (hws : ws.map Prod.snd = xs.map Attempt.work)
    (hxs : ∀ j < xs.length, st.attempts[start + j]? = xs[j]?) :
    Held st ws {j | start ≤ j ∧ j < start + xs.length} := by
  induction xs generalizing ws start with
  | nil =>
    rw [List.map_nil, List.map_eq_nil_iff] at hws
    have hnone : {j | start ≤ j ∧ j < start + ([] : List Attempt).length} = ∅ := by
      ext j
      simp
    rw [hws, hnone]
    exact .nil
  | cons x rest ih =>
    obtain ⟨⟨k, w⟩, ws, rfl, hw, hrest⟩ := List.map_eq_cons_iff.mp hws
    have hx : st.attempts[start]? = some x := hxs 0 (by simp)
    have hsplit : {j | start ≤ j ∧ j < start + (x :: rest).length} =
        {start} ∪ {j | start + 1 ≤ j ∧ j < start + 1 + rest.length} := by
      ext j
      simp only [Set.mem_ofPred_eq, List.length_cons, Set.mem_union, Set.mem_singleton_iff]
      omega
    rw [hsplit]
    obtain rfl : w = x.work := hw
    refine .cons (turns_of_attempt hx) ?_ ?_ (ih hrest fun j hj => ?_)
    · rintro j rfl
      exact (List.getElem?_eq_some_iff.mp hx).1
    · rw [Set.disjoint_left]
      rintro j rfl hj
      have hlt : j + 1 ≤ j := hj.1
      omega
    · rw [Nat.add_assoc, Nat.add_comm 1 j]
      exact hxs (j + 1) (by simpa using hj)

/-- Work that adds a plugin owns the new attempts. -/
theorem Advances.of_call (p : Plugin) (makes : Nat → String → EngineConfig → Delayed Engine) :
    Advances ∅ st {j | st.attempts.length ≤ j ∧ j < (st.call p makes).attempts.length}
      (st.call p makes) where
  moves := ⟨[.call p makes], rfl⟩
  others _ hj _ := List.getElem?_append_left hj
  mine _ hj := .inr hj.1
  within _ hj := hj.2

/-- `addPlugin` can have its first turn at any moment, since it owns no attempts before. -/
theorem turns_of_addPlugin (p : Plugin) : Turns (addPlugin p) ∅ st := by
  intro st' _
  change Follows _ ((Work.done (openPlugin p st'.analyzer).1).bind _) ∅ st' (openPlugin p st'.analyzer).2
  refine .advance (.of_call p fun _ => p.make) ?_
  change Follows _ _ _ (st'.call p fun _ => p.make) (st'.call p fun _ => p.make).analyzer
  cases hopen : (openPlugin p st'.analyzer).1 with
  | error f => exact .ended (.error f)
  | ok names =>
    have hattempts : (st'.call p fun _ => p.make).attempts =
        st'.attempts ++ names.map fun name => ⟨name, .ready p⟩ := by
      unfold call
      rw [hopen]
      exact congrArg (st'.attempts ++ ·) (List.ext_getElem? fun i => by simp)
    have hheld : Held (st'.call p fun _ => p.make) (positioned (names.map (addEngine p)))
        {j | st'.attempts.length ≤ j ∧ j < (st'.call p fun _ => p.make).attempts.length} := by
      rw [hattempts, List.length_append]
      refine .of_attempts ?_ fun j _ => ?_
      · rw [map_snd_positioned, List.map_map]
        rfl
      · rw [hattempts, List.getElem?_append_right (Nat.le_add_right _ j), Nat.add_sub_cancel_left]
    exact (gather_follows _ hheld).bind (fun _ _ _ => trivial) fun _ _ _ _ => .ended (.ok ())

theorem Held.of_plugins {ws : List (Nat × Work Analyzer Unit)}
    (hws : ∀ w ∈ ws, ∃ p, w.2 = addPlugin p) : Held st ws ∅ := by
  induction ws with
  | nil => exact .nil
  | cons w rest ih =>
    obtain ⟨k, w⟩ := w
    obtain ⟨p, rfl⟩ := hws (k, w) List.mem_cons_self
    have hrest := ih fun w hw => hws w (List.mem_cons_of_mem _ hw)
    simpa using Held.cons (k := k) (turns_of_addPlugin p) (fun _ hi => hi.elim) (Set.disjoint_empty ∅) hrest

/-- `addPlugins` is one of the sequences of moves. -/
theorem addPlugins_plays (ps : List Plugin) (st : Registering) :
    ∃ moves, ((addPlugins ps).drive st.analyzer).2 = (st.play moves).analyzer := by
  refine (gatherAll_follows _ (Held.of_plugins ?_)).drive
  intro w hw
  have hmem : w.2 ∈ ps.map addPlugin := map_snd_positioned (ps.map addPlugin) ▸ List.mem_map_of_mem hw
  obtain ⟨p, -, hp⟩ := List.mem_map.mp hmem
  exact ⟨p, hp.symm⟩

end Polyscan.Registering
