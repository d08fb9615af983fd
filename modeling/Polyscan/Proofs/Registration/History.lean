import Polyscan.Proofs.Registration.Schedule

/-!
The history of registrations: engines stay once they are registered, attempts end once, and an attempt for a
name that is registered has one event and no other effect.
-/
namespace Polyscan.Registering

open Analyzer

variable {st : Registering} {i : Nat} {x : Attempt} {name : String} {s : Slot}

/-! ## Engines stay -/

theorem slot_lasts_step (hs : st.analyzer.slots.get? name = some s) (m : Move) :
    (st.step m).analyzer.slots.get? name = some s := by
  cases m with
  | call p makes =>
    change (openPlugin p st.analyzer).2.slots.get? name = some s
    rwa [openPlugin_slots]
  | turn i =>
    change (st.turn i).analyzer.slots.get? name = some s
    cases hx : st.attempts[i]? with
    | none => rwa [turn_of_none hx]
    | some x =>
      cases he : x.ending? st.analyzer with
      | none => rwa [turn_of_waiting hx he]
      | some e =>
        rw [turn_of_ending hx he]
        change (e.effect x.name st.analyzer).2.slots.get? name = some s
        rw [e.effect_slots]
        -- only an engine that is kept is put in, and its name was not taken
        cases e with
        | kept config engine =>
          rw [OrderedMap.get?_insert, if_neg]
          · exact hs
          · rintro rfl
            have hnew := Attempt.not_isRegistered_of_kept he
            rw [isRegistered_iff.mpr (OrderedMap.mem_keys_iff.mpr ⟨s, hs⟩)] at hnew
            cases hnew
        | _ => exact hs

/-- An engine that is registered is never replaced or removed. -/
theorem slot_lasts (hs : st.analyzer.slots.get? name = some s) (moves : List Move) :
    (st.play moves).analyzer.slots.get? name = some s := by
  induction moves generalizing st with
  | nil => exact hs
  | cons m rest ih => exact ih (slot_lasts_step hs m)

/-! ## Attempts end once -/

theorem ended_lasts {result : Except Fault Unit} (hx : st.attempts[i]? = some x)
    (hended : x.phase = .ended result) (moves : List Move) : (st.play moves).attempts[i]? = some x := by
  induction moves generalizing st with
  | nil => exact hx
  | cons m rest ih =>
    refine ih ?_
    cases m with
    | call p makes =>
      change (st.attempts ++ _)[i]? = some x
      rw [List.getElem?_append_left (List.getElem?_eq_some_iff.mp hx).1, hx]
    | turn j =>
      change (st.turn j).attempts[i]? = some x
      cases hj : st.attempts[j]? with
      | none => rwa [turn_of_none hj]
      | some y =>
        simp only [turn, hj, List.getElem?_set]
        by_cases hij : j = i
        · subst hij
          cases hx.symm.trans hj
          rw [if_pos rfl, if_pos (List.getElem?_eq_some_iff.mp hx).1, Attempt.after_of_ended hended]
        · rwa [if_neg hij]

/-- After its last turn an attempt stays finished. -/
theorem ended_of_ending {e : Ending} (hx : st.attempts[i]? = some x)
    (he : x.ending? st.analyzer = some e) (moves : List Move) :
    ∃ y result, ((st.turn i).play moves).attempts[i]? = some y ∧ y.phase = .ended result := by
  refine ⟨{ x with phase := .ended (e.effect x.name st.analyzer).1 }, _, ended_lasts ?_ rfl moves, rfl⟩
  rw [turn_of_ending hx he]
  exact List.getElem?_set_self (List.getElem?_eq_some_iff.mp hx).1

/-- A turn in which the attempt does not end has no effect. -/
theorem turn_quiet (h : ∀ x, st.attempts[i]? = some x → x.ending? st.analyzer = none) :
    (st.turn i).analyzer = st.analyzer := by
  cases hx : st.attempts[i]? with
  | none => rw [turn_of_none hx]
  | some x => rw [turn_of_waiting hx (h x hx)]

/-- Of all turns of an attempt only the one in which it ends has an effect. -/
theorem quiet_unless_ending {moves before after before' after' : List Move} {e : Ending}
    (hx : (st.play before).attempts[i]? = some x)
    (he : x.ending? (st.play before).analyzer = some e) (hsplit : moves = before ++ .turn i :: after)
    (hsplit' : moves = before' ++ .turn i :: after') (hne : before' ≠ before) :
    ((st.play before').turn i).analyzer = (st.play before').analyzer := by
  apply turn_quiet
  intro y hy
  rw [hsplit] at hsplit'
  rcases List.append_eq_append_iff.mp hsplit' with ⟨more, hbefore, hmore⟩ | ⟨more, hbefore, hmore⟩
  · -- the attempt was over before
    cases more with
    | nil => exact absurd (by simpa using hbefore) hne
    | cons m rest =>
      cases (List.cons.inj hmore).1
      obtain ⟨z, result, hz, hended⟩ := ended_of_ending hx he rest
      have hplay : st.play before' = ((st.play before).turn i).play rest := by
        rw [hbefore, play_append]
        rfl
      rw [← hplay, hy] at hz
      cases hz
      exact Attempt.ending?_of_ended hended
  · -- had the attempt ended in this turn, it would be over when it ends
    cases more with
    | nil => exact absurd (by simpa using hbefore.symm) hne
    | cons m rest =>
      cases (List.cons.inj hmore).1
      cases hend : y.ending? (st.play before').analyzer with
      | none => rfl
      | some e' =>
        obtain ⟨z, result, hz, hended⟩ := ended_of_ending hy hend rest
        have hplay : st.play before = ((st.play before').turn i).play rest := by
          rw [hbefore, play_append]
          rfl
        rw [← hplay, hx] at hz
        cases hz
        rw [Attempt.ending?_of_ended hended] at he
        cases he

/-! ## Every order of turns -/

/-- An attempt that is refused, or whose engine is made too late, ends as a duplicate. -/
theorem ending?_of_taken {a : Analyzer} (hname : x.name ∈ a.engineNames)
    (hright : x.isRefused a = true ∨ ∃ engine, x.completion? a = some engine) :
    ∃ made, x.ending? a = some (.duplicate made) := by
  rcases hright with hrefused | ⟨engine, hengine⟩
  · exact ⟨none, by rw [Attempt.ending?, if_pos hrefused]⟩
  · rw [Attempt.completion?_eq] at hengine
    obtain ⟨e, he, hmade⟩ := Option.bind_eq_some_iff.mp hengine
    cases e with
    | duplicate made => exact ⟨made, he⟩
    | kept config engine =>
      have hnew := Attempt.not_isRegistered_of_kept he
      rw [isRegistered_iff.mpr hname] at hnew
      cases hnew
    | _ => cases hmade

/-- The registry under every sequence of `addPlugin` calls and turns of their attempts. Names are unique, the
engine of a name reports that name, and it is never replaced. It is the first one that was completed for the
name, and names are listed in the order of these completions. An attempt whose turn finds its name registered,
before its engine is made or after, emits `duplicateEngine` in this turn and changes nothing else, and its
other turns have no effect. `addPlugins`, with the rounds of `Work.gatherAll` and `Work.gather`, is one of
these sequences. -/
theorem registration_settles (a : Analyzer) (moves : List Move) :
    (∀ ps, ∃ more, ((addPlugins ps).drive ((start a).play moves).analyzer).2 =
        ((start a).play (moves ++ more)).analyzer) ∧
      ((start a).play moves).analyzer.engineNames.Nodup ∧
      (∀ name s, ((start a).play moves).analyzer.slots.get? name = some s →
        s.engine.reportedName = .ok name ∧
          ∀ more, ((start a).play (moves ++ more)).analyzer.slots.get? name = some s) ∧
      (∀ name, (((start a).play moves).analyzer.slots.get? name).map Slot.engine =
        OrderedMap.find name ((start a).play moves).completed) ∧
      ((start a).play moves).analyzer.engineNames =
        (((start a).play moves).completed.map Prod.fst).eraseDups ∧
      ∀ before i after x, moves = before ++ .turn i :: after →
        ((start a).play before).attempts[i]? = some x →
        x.name ∈ ((start a).play before).analyzer.engineNames →
        (x.isRefused ((start a).play before).analyzer = true ∨
          ∃ engine, x.completion? ((start a).play before).analyzer = some engine) →
        ((start a).play (before ++ [.turn i])).analyzer =
            (say .error (.duplicateEngine x.name) ((start a).play before).analyzer).2 ∧
          ((start a).play (before ++ [.turn i])).analyzer.slots =
            ((start a).play before).analyzer.slots ∧
          ∀ before' after', moves = before' ++ .turn i :: after' → before' ≠ before →
            ((start a).play (before' ++ [.turn i])).analyzer = ((start a).play before').analyzer := by
  have hsettled := (settled_start a).play moves
  refine ⟨fun ps => ?_, OrderedMap.keys_nodup _, ?_, hsettled.first, hsettled.names, ?_⟩
  · obtain ⟨more, hmore⟩ := addPlugins_plays ps ((start a).play moves)
    exact ⟨more, by rw [play_append, hmore]⟩
  · intro name s hs
    refine ⟨?_, fun more => ?_⟩
    · have hfound := hsettled.first name
      rw [hs, Option.map_some] at hfound
      exact hsettled.reported _ (OrderedMap.mem_of_find hfound.symm)
    · rw [play_append]
      exact slot_lasts hs more
  · intro before i after x hsplit hx hname hright
    obtain ⟨made, he⟩ := ending?_of_taken hname hright
    have hturn : ((start a).play (before ++ [.turn i])).analyzer =
        (say .error (.duplicateEngine x.name) ((start a).play before).analyzer).2 := by
      rw [play_snoc]
      change (((start a).play before).turn i).analyzer = _
      rw [turn_of_ending hx he]
      rfl
    refine ⟨hturn, by rw [hturn, say_slots], fun before' after' hsplit' hne => ?_⟩
    rw [play_snoc]
    exact quiet_unless_ending hx he hsplit hsplit' hne

end Polyscan.Registering
