import Polyscan.Analyzer.Basic
import Polyscan.Proofs.Sharing.Interleaving

/-!
Concurrent calls of `expandedFiles` for one workspace. Folders are walked once, by the first caller, and all
callers get the result of that walk, whatever changes on the machine.
-/
namespace Polyscan.Analyzer

open Once Sharing Work

variable {w : Workspace} {a : Analyzer} {st : Sharing Analyzer (List String)}

/-- The expansion on the machine as it is at the end of the walk. -/
def Walked (w : Workspace) (_since last : Analyzer) (r : Except Fault (List String)) : Prop :=
  r = .ok (Workspace.expand last.host w.inputs)

/-- The rest of a walk that has begun. -/
def walking (w : Workspace) : Work Analyzer (List String) :=
  .wait (fun _ => true) (Work.now fun a => (.ok (Workspace.expand a.host w.inputs), a))

theorem lawful_expansion (key : Nat) : (expansion key).Lawful where
  look_store o a := by simp [expansion, OrderedMap.find_put]

theorem ends_listFiles (w : Workspace) (since a : Analyzer) : (listFiles w).Ends (Walked w since) a :=
  fun _ => rfl

theorem apart_listFiles (w : Workspace) : (expansion w.key).apart.Abides (listFiles w) :=
  .bind (.pause 1) fun _ => .still fun _ => rfl

/-- The invariant of `Sharing` for expansions, where a walk needs one more turn. -/
structure SharesFiles (w : Workspace) (st : Sharing Analyzer (List String)) : Prop where
  orderly : st.Orderly (expansion w.key) (listFiles w) (Walked w)
  walks : ∀ c ∈ st.callers, ∀ since rest, c.stage = .making since rest → rest = walking w

/-- A turn begins the walk or ends it. -/
theorem walks_turn {c : Stage Analyzer (List String)}
    (h : ∀ since rest, c = .making since rest → rest = walking w) (a : Analyzer) :
    ∀ since rest, (c.turn (expansion w.key) (listFiles w) a).1 = .making since rest → rest = walking w := by
  have henter : ∀ since rest,
      (Stage.enterIfFree (expansion w.key) (listFiles w) a).1 = .making since rest → rest = walking w := by
    intro since rest hmaking
    rw [Stage.enterIfFree, Stage.enter] at hmaking
    split at hmaking
    · split at hmaking
      · cases hmaking
      · cases hmaking
        rfl
    · cases hmaking
  intro since rest hmaking
  cases c with
  | fresh =>
    rw [Stage.turn] at hmaking
    split at hmaking
    · cases hmaking
    · exact henter since rest hmaking
  | queued => exact henter since rest hmaking
  | making since rest =>
    rw [h since rest rfl] at hmaking
    cases hmaking
  | made since last r => cases hmaking
  | found v => cases hmaking

namespace SharesFiles

theorem start (hnew : (expansion w.key).look a = {}) : SharesFiles w { state := a } where
  orderly := orderly_start hnew
  walks := fun _ hc => absurd hc List.not_mem_nil

theorem step (h : SharesFiles w st) (m : Occurrence Analyzer) :
    SharesFiles w (st.step (expansion w.key) (listFiles w) m) where
  orderly := h.orderly.step (lawful_expansion w.key) (fun _ => ends_listFiles w _ _) (apart_listFiles w) m
  walks := by
    cases m with
    | arrive => exact List.forall_mem_append.mpr ⟨h.walks, by simp⟩
    | others a => exact h.walks
    | turn i =>
      rw [Sharing.step, Sharing.turn]
      cases hi : st.callers[i]? with
      | none => exact h.walks
      | some c =>
        intro d hd
        rcases List.mem_or_eq_of_mem_set hd with hd | rfl
        · exact h.walks d hd
        · exact walks_turn (h.walks c (List.mem_of_getElem? hi)) st.state

theorem play (h : SharesFiles w st) (moves : List (Occurrence Analyzer)) :
    SharesFiles w (st.play (expansion w.key) (listFiles w) moves) := by
  induction moves generalizing st with
  | nil => exact h
  | cons m rest ih => exact ih (h.step m)

theorem never_fails (h : SharesFiles w st) {c : Caller Analyzer (List String)} (hc : c ∈ st.callers)
    {r : Except Fault (List String)} (hr : c.work.result? = some r) :
    ∃ files, r = .ok files ∧ ((expansion w.key).look st.state).value = some files := by
  rcases h.orderly.result hc hr with hgiven | ⟨f, since, last, -, -, hwalked⟩
  · exact hgiven
  · cases hwalked

/-- A walk ends in the turn after the one in which it began. -/
theorem made_turn (h : SharesFiles w st) {c : Caller Analyzer (List String)} (hc : c ∈ st.callers)
    (hbegan : c.stage.since?.isSome = true) :
    ∃ since last files, (c.stage.turn (expansion w.key) (listFiles w) st.state).1 =
      .made since last (.ok files) := by
  have hsound := h.orderly.sound c hc
  have hwalks := h.walks c hc
  generalize c.stage = stage at hsound hwalks hbegan ⊢
  cases hsound with
  | making =>
    rw [hwalks _ _ rfl]
    exact ⟨_, _, _, rfl⟩
  | failed hwalked => cases hwalked
  | made => exact ⟨_, _, _, rfl⟩
  | _ => cases hbegan

/-! ### Rounds -/

variable {moves : List (Occurrence Analyzer)} {i : Nat} {c : Caller Analyzer (List String)}

theorem begun_lasts (c : Caller Analyzer (List String)) (a : Analyzer) (h : c.stage.since?.isSome = true) :
    (c.turn (expansion w.key) (listFiles w) a).stage.since?.isSome = true := by
  obtain ⟨since, hsince⟩ := Option.isSome_iff_exists.mp h
  exact Option.isSome_iff_exists.mpr ⟨since, Stage.since?_stays hsince⟩

/-- In a round some caller begins to walk, unless one did before. -/
theorem begins_in_round (h : SharesFiles w st) (hround : st.Round moves) (hi : st.callers[i]? = some c) :
    ∃ (j : Nat) (d : Caller Analyzer (List String)),
      (st.play (expansion w.key) (listFiles w) moves).callers[j]? = some d ∧
        d.stage.since?.isSome = true := by
  obtain ⟨before, after, rfl⟩ := hround.split hi
  rw [play_append]
  obtain ⟨c, hi, -⟩ := caller_play (Q := fun _ => True) (fun _ _ _ => trivial) hi trivial before
  have h := h.play before
  generalize st.play (expansion w.key) (listFiles w) before = st at h hi
  by_cases hbegun : ∃ d ∈ st.callers, d.stage.since?.isSome = true
  · obtain ⟨d, hd, hbegan⟩ := hbegun
    obtain ⟨j, hj⟩ := List.mem_iff_getElem?.mp hd
    exact ⟨j, caller_play begun_lasts hj hbegan _⟩
  · have hnew := h.orderly.unbegun fun d hd =>
      Option.not_isSome_iff_eq_none.mp fun hbegan => hbegun ⟨d, hd, hbegan⟩
    have hc := List.mem_of_getElem? hi
    have hwaits : c.work.result? = none := by
      refine Option.eq_none_iff_forall_ne_some.mpr fun r hr => ?_
      obtain ⟨files, -, hvalue⟩ := h.never_fails hc hr
      rw [hnew] at hvalue
      cases hvalue
    have hbegan := h.orderly.begins (lawful_expansion w.key) hc hwaits hnew
    exact ⟨i, caller_play begun_lasts (caller_turn hi) (by rw [hbegan]; rfl) after⟩

/-- If a caller has begun to walk, the expansion is stored after a round. -/
theorem known_after_round (h : SharesFiles w st) (hround : st.Round moves) (hi : st.callers[i]? = some c)
    (hbegan : c.stage.since?.isSome = true) :
    ∃ files, ((expansion w.key).look (st.play (expansion w.key) (listFiles w) moves).state).value =
      some files := by
  obtain ⟨before, after, rfl⟩ := hround.split hi
  rw [play_append]
  obtain ⟨c, hi, hbegan⟩ := caller_play begun_lasts hi hbegan before
  have h := h.play before
  generalize st.play (expansion w.key) (listFiles w) before = st at h hi
  have hc := List.mem_of_getElem? hi
  obtain ⟨since, last, files, hmade⟩ := h.made_turn hc hbegan
  have hsound := (h.orderly.moves (lawful_expansion w.key) (fun _ => ends_listFiles w _ _)
    (apart_listFiles w) hc).sound
  rw [hmade] at hsound
  cases hsound with
  | made hvalue =>
    have hvalue : ((expansion w.key).look (st.turn (expansion w.key) (listFiles w) i).state).value =
        some files := by rwa [turn_of_some hi]
    exact ⟨files, (h.step (.turn i)).orderly.value_play (lawful_expansion w.key)
      (fun _ => ends_listFiles w _ _) (apart_listFiles w) hvalue after⟩

/-- If the expansion is stored, every caller has it after a round. -/
theorem given_after_round {files : List String} (h : SharesFiles w st) (hround : st.Round moves)
    (hfiles : ((expansion w.key).look st.state).value = some files) (hi : st.callers[i]? = some c) :
    ∃ d, (st.play (expansion w.key) (listFiles w) moves).callers[i]? = some d ∧
      d.work = .done (.ok files) := by
  obtain ⟨before, after, rfl⟩ := hround.split hi
  rw [play_append]
  obtain ⟨c, hi, -⟩ := caller_play (Q := fun _ => True) (fun _ _ _ => trivial) hi trivial before
  have hfiles := h.orderly.value_play (lawful_expansion w.key) (fun _ => ends_listFiles w _ _)
    (apart_listFiles w) hfiles before
  have h := h.play before
  generalize st.play (expansion w.key) (listFiles w) before = st at h hi hfiles
  have hc := List.mem_of_getElem? hi
  have hgiven : (c.turn (expansion w.key) (listFiles w) st.state).work = .done (.ok files) := by
    rcases h.orderly.given (lawful_expansion w.key) hc hfiles with hgiven | ⟨f, hfailed⟩
    · exact hgiven
    · obtain ⟨files, hresult, -⟩ := h.never_fails hc (r := .error f) (by rw [hfailed]; rfl)
      cases hresult
  refine caller_play (Q := fun c => c.work = .done (.ok files)) ?_ (caller_turn hi) hgiven after
  intro c a hdone
  rw [Caller.turn, hdone]
  rfl

end SharesFiles

/-- Concurrent calls of `expandedFiles`, under every interleaving of their turns and with arbitrary changes of
the rest of the state, files included. At most one caller begins a walk, and every caller that is answered has
the expansion from the end of that walk. After three rounds of turns every caller is answered. -/
theorem walked_once (hnew : (expansion w.key).look a = {}) (moves : List (Occurrence Analyzer))
    (hst : ({ state := a } : Sharing Analyzer (List String)).play (expansion w.key) (listFiles w) moves = st) :
    (∀ c ∈ st.callers, c.stage = .fresh → c.work = expandedFiles w) ∧
    st.begun ≤ 1 ∧
    (∃ last : Analyzer, ∀ c ∈ st.callers, ∀ r, c.work.result? = some r →
      r = .ok (Workspace.expand last.host w.inputs) ∧
      ∃ d ∈ st.callers, ∃ since, d.stage = .made since last r) ∧
    ∀ st₁ st₂ st₃ m₁ m₂ m₃,
      st.Round m₁ → st.play (expansion w.key) (listFiles w) m₁ = st₁ →
      st₁.Round m₂ → st₁.play (expansion w.key) (listFiles w) m₂ = st₂ →
      st₂.Round m₃ → st₂.play (expansion w.key) (listFiles w) m₃ = st₃ →
      ∀ i < st.callers.length, ∃ c files, st₃.callers[i]? = some c ∧ c.work = .done (.ok files) := by
  have h : SharesFiles w st := hst ▸ (SharesFiles.start hnew).play moves
  refine ⟨fun c hc hfresh => ?_, h.orderly.begun_le_one fun _ _ _ => nofun, ?_, ?_⟩
  · rw [h.orderly.work c hc, hfresh]
    rfl
  · cases hvalue : ((expansion w.key).look st.state).value with
    | none =>
      refine ⟨a, fun c hc r hr => ?_⟩
      obtain ⟨files, -, hfiles⟩ := h.never_fails hc hr
      cases hvalue.symm.trans hfiles
    | some files =>
      obtain ⟨d, hd, since, last, hmade, hwalked⟩ := h.orderly.maker hvalue
      refine ⟨last, fun c hc r hr => ?_⟩
      obtain ⟨files', rfl, hfiles⟩ := h.never_fails hc hr
      cases hvalue.symm.trans hfiles
      exact ⟨hwalked, d, hd, since, hmade⟩
  · rintro st₁ st₂ st₃ m₁ m₂ m₃ hfirst rfl hsecond rfl hthird rfl i hi
    have hi := List.getElem?_eq_getElem hi
    obtain ⟨j, d, hj, hbegan⟩ := h.begins_in_round hfirst hi
    obtain ⟨files, hfiles⟩ := (h.play m₁).known_after_round hsecond hj hbegan
    obtain ⟨c, hi, -⟩ := caller_play (Q := fun _ => True) (fun _ _ _ => trivial) hi trivial m₁
    obtain ⟨c, hi, -⟩ := caller_play (Q := fun _ => True) (fun _ _ _ => trivial) hi trivial m₂
    obtain ⟨c, hc, hdone⟩ := ((h.play m₁).play m₂).given_after_round hthird hfiles hi
    exact ⟨c, files, hc, hdone⟩

/-- An analyzer on a machine with files of the given names. -/
def onFiles (names : List String) : Analyzer where
  host := ⟨.folder (names.map fun name => (name, .file (.bytes []))), [], "/", []⟩

/-- Two callers at once and a third one later; a file is created and removed in between. -/
def lateThirdCaller : List (Occurrence Analyzer) :=
  [.arrive, .arrive, .turn 0, .turn 1, .others (onFiles ["a.py", "b.py"]), .turn 1, .turn 0,
    .others (onFiles []), .arrive, .turn 1, .turn 2]

/-- The third caller gets the expansion of the first walk. -/
theorem walked_once_lateThirdCaller :
    ∃ st, ({ state := onFiles ["a.py"] } : Sharing Analyzer (List String)).play
        (expansion 0) (listFiles ⟨0, "workspace1", ["/a.py", "/b.py"]⟩) lateThirdCaller = st ∧
      st.begun ≤ 1 ∧
      st.callers.map (fun c => c.work.result?.bind Except.toOption) =
        List.replicate 3 (some ["/a.py", "/b.py"]) := by
  refine ⟨_, rfl, (walked_once (w := ⟨0, "workspace1", ["/a.py", "/b.py"]⟩) rfl lateThirdCaller rfl).2.1, ?_⟩
  decide +kernel

end Polyscan.Analyzer
