import Polyscan.Proofs.Abiding

/-!
Single callers of a shared value. The stage of a caller determines the rest of its work, so that a turn is a
step from one stage to the next, and making the value is a different step from finding it.
-/
namespace Polyscan

namespace Work

variable {σ α β : Type}

/-- The result of the work, from a state and under every interleaving, satisfies `P` in the state in which it
ends. -/
def Ends (P : σ → Except Fault α → Prop) : Work σ α → σ → Prop
  | done r, s => P s r
  | get next, s => Ends P (next s) s
  | put s next, _ => Ends P next s
  | wait _ next, _ => ∀ t, Ends P next t

namespace Ends

variable {P Q : σ → Except Fault α → Prop} {w : Work σ α} {s : σ}

theorem mono (h : Ends P w s) (hPQ : ∀ t r, P t r → Q t r) : Ends Q w s := by
  induction w generalizing s with
  | done r => exact hPQ s r h
  | get next ih => exact ih s h
  | put s' next ih => exact ih h
  | wait ready next ih => exact fun t => ih (h t)

/-- After a turn the work is finished with such a result, or the rest of it ends so from every state. -/
theorem resume (h : Ends P w s) :
    (∃ r, (w.resume s).1 = .done r ∧ P (w.resume s).2 r) ∨ ∀ t, Ends P (w.resume s).1 t := by
  induction w generalizing s with
  | done r => exact .inl ⟨r, rfl, h⟩
  | get next ih => exact ih s h
  | put s' next ih => exact ih h
  | wait ready next ih => exact .inr fun _ => h

theorem turn (h : ∀ t, Ends P w t) (s : σ) :
    (∃ r, (w.turn s).1 = .done r ∧ P (w.turn s).2 r) ∨ ∀ t, Ends P (w.turn s).1 t := by
  cases w with
  | wait ready next =>
    rw [Work.turn]
    split
    · exact resume (h s s)
    · exact .inr h
  | _ => exact resume (h s)

theorem bind {R : σ → Except Fault β → Prop} {f : α → Work σ β} (h : Ends P w s)
    (hok : ∀ x t, P t (.ok x) → Ends R (f x) t) (herror : ∀ e t, P t (.error e) → R t (.error e)) :
    Ends R (w.bind f) s := by
  induction w generalizing s with
  | done r =>
    cases r with
    | ok x => exact hok x s h
    | error e => exact herror e s h
  | get next ih => exact ih s h
  | put s' next ih => exact ih h
  | wait ready next ih => exact fun t => ih (h t)

end Ends

end Work

namespace Once

open Work

variable {σ ν : Type}

/-- Reading a spot gives the value that was stored there. -/
structure Spot.Lawful (spot : Spot σ ν) : Prop where
  look_store : ∀ o s, spot.look (spot.store o s) = o

/-- The law that a spot stays unchanged. -/
def Spot.apart (spot : Spot σ ν) : Law σ where
  keeps s t := spot.look t = spot.look s
  refl _ := rfl
  trans h h' := h'.trans h

/-! ## Stages -/

/-- The stage of a caller of a shared value. -/
inductive Stage (σ ν : Type) where
  | fresh
  /-- Found the value missing and the lock taken. -/
  | queued
  /-- Took the lock in a state and found the value still missing; the rest of the making is left. -/
  | making (since : σ) (rest : Work σ ν)
  /-- Made the value, or failed to; `last` is the state in which this ended. -/
  | made (since last : σ) (result : Except Fault ν)
  /-- Found the value. -/
  | found (v : ν)

namespace Stage

/-- The caller holds the lock. -/
def makes : Stage σ ν → Bool
  | making .. => true
  | _ => false

/-- The state in which the caller began to make the value. -/
def since? : Stage σ ν → Option σ
  | making since _ => some since
  | made since _ _ => some since
  | _ => none

/-- The caller has made the value. -/
def succeeded : Stage σ ν → Bool
  | made _ _ (.ok _) => true
  | _ => false

/-- The caller could not make the value. -/
def failed : Stage σ ν → Bool
  | made _ _ (.error _) => true
  | _ => false

variable (spot : Spot σ ν) (make : Work σ ν)

/-- The rest of the work of the caller that makes the value. -/
def finishing (rest : Work σ ν) : Work σ ν := (fill spot rest).ensuring spot.unlock

/-- The rest of the work of a caller that takes the lock. -/
def entering : Work σ ν :=
  .get fun s => .put (spot.lock s) ((orFrom spot (fill spot make)).ensuring spot.unlock)

/-- The rest of the work of a caller. -/
def work : Stage σ ν → Work σ ν
  | fresh => obtain spot make
  | queued => .wait spot.isFree (entering spot make)
  | making _ rest => finishing spot rest
  | made _ _ r => .done r
  | found v => .done (.ok v)

/-- The effect of a turn of making: it goes on, or the value is stored if there is one, and the lock is
released. -/
def settle (since : σ) : Work σ ν × σ → Stage σ ν × σ
  | (.done (.ok v), s) => (.made since s (.ok v), spot.unlock (spot.keep v s))
  | (.done (.error f), s) => (.made since s (.error f), spot.unlock s)
  | (rest, s) => (.making since rest, s)

/-- Takes the lock and looks again. -/
def enter (s : σ) : Stage σ ν × σ :=
  match (spot.look (spot.lock s)).value with
  | some v => (.found v, spot.unlock (spot.lock s))
  | none => settle spot s (make.resume (spot.lock s))

def enterIfFree (s : σ) : Stage σ ν × σ :=
  if spot.isFree s then enter spot make s else (.queued, s)

/-- One turn of a caller. -/
def turn : Stage σ ν → σ → Stage σ ν × σ
  | fresh, s =>
    match (spot.look s).value with
    | some v => (.found v, s)
    | none => enterIfFree spot make s
  | queued, s => enterIfFree spot make s
  | making since rest, s => settle spot since (rest.turn s)
  | made since last r, s => (.made since last r, s)
  | found v, s => (.found v, s)

/-! ## Turns are turns of the work -/

theorem resume_finishing (since : σ) (rest : Work σ ν) (s : σ) :
    (finishing spot rest).resume s =
      ((settle spot since (rest.resume s)).1.work spot make, (settle spot since (rest.resume s)).2) := by
  induction rest generalizing s with
  | done r => cases r <;> rfl
  | get next ih => exact ih s s
  | put s' next ih => exact ih s'
  | wait ready next ih => rfl

theorem resume_orFrom_some {other : Work σ ν} {v : ν} {s : σ} (h : (spot.look s).value = some v) :
    (orFrom spot other).resume s = (.done (.ok v), s) := by
  rw [orFrom, resume, h]
  rfl

theorem resume_orFrom_none {other : Work σ ν} {s : σ} (h : (spot.look s).value = none) :
    (orFrom spot other).resume s = other.resume s := by
  rw [orFrom, resume, h]

theorem resume_entering (s : σ) :
    (entering spot make).resume s =
      ((enter spot make s).1.work spot make, (enter spot make s).2) := by
  show ((orFrom spot (fill spot make)).ensuring spot.unlock).resume (spot.lock s) = _
  rw [enter]
  cases hvalue : (spot.look (spot.lock s)).value with
  | some v =>
    rw [orFrom, Work.ensuring, Work.attempt, Work.bind, resume, hvalue]
    rfl
  | none =>
    rw [orFrom, Work.ensuring, Work.attempt, Work.bind, resume, hvalue]
    exact resume_finishing spot make s make (spot.lock s)

theorem turn_queued (s : σ) :
    (Work.wait spot.isFree (entering spot make)).turn s =
      ((enterIfFree spot make s).1.work spot make, (enterIfFree spot make s).2) := by
  rw [enterIfFree]
  show (if spot.isFree s then _ else _) = _
  split
  · exact resume_entering spot make s
  · rfl

theorem turn_finishing (since : σ) (rest : Work σ ν) (s : σ) :
    (finishing spot rest).turn s =
      ((settle spot since (rest.turn s)).1.work spot make, (settle spot since (rest.turn s)).2) := by
  cases rest with
  | wait ready next =>
    show (if ready s then (finishing spot next).resume s else (finishing spot (.wait ready next), s)) =
      ((settle spot since (if ready s then next.resume s else (.wait ready next, s))).1.work spot make,
        (settle spot since (if ready s then next.resume s else (.wait ready next, s))).2)
    split
    · exact resume_finishing spot make since next s
    · rfl
  | done r => cases r <;> rfl
  | get next => exact resume_finishing spot make since (.get next) s
  | put s' next => exact resume_finishing spot make since (.put s' next) s

/-- A turn of the rest of the work leaves the rest of the work at the next stage. -/
theorem turn_work (c : Stage σ ν) (s : σ) :
    (c.work spot make).turn s = ((c.turn spot make s).1.work spot make, (c.turn spot make s).2) := by
  cases c with
  | fresh =>
    show (obtain spot make).resume s = _
    rw [obtain, turn]
    cases hvalue : (spot.look s).value with
    | some v => exact resume_orFrom_some spot hvalue
    | none =>
      rw [resume_orFrom_none spot hvalue]
      show (Work.bind (if spot.isFree s then _ else _) _ : Work σ ν).resume s = _
      rw [enterIfFree]
      split
      · exact resume_entering spot make s
      · rfl
  | queued => exact turn_queued spot make s
  | making since rest => exact turn_finishing spot make since rest s
  | made since last r => rfl
  | found v => rfl

/-! ## The effect of a turn -/

variable {spot make}

/-- What holds at a stage, given the shared value: the rest of making it leaves the spot unchanged and has an
outcome as described by `P` for the states at its beginning and end, and a caller that has a value has the
shared one. -/
inductive Sound (spot : Spot σ ν) (P : σ → σ → Except Fault ν → Prop) (value : Option ν) :
    Stage σ ν → Prop
  | fresh : Sound spot P value .fresh
  | queued : Sound spot P value .queued
  | making {since : σ} {rest : Work σ ν} (hends : ∀ t, Ends (P since) rest t)
      (hapart : spot.apart.Abides rest) : Sound spot P value (.making since rest)
  | failed {since last : σ} {f : Fault} (h : P since last (.error f)) :
      Sound spot P value (.made since last (.error f))
  | made {since last : σ} {v : ν} (hvalue : value = some v) (h : P since last (.ok v)) :
      Sound spot P value (.made since last (.ok v))
  | found {v : ν} (hvalue : value = some v) : Sound spot P value (.found v)

/-- The effect of a turn on the caller and the shared value: the lock is taken and released by the caller that
makes the value, a stored value stays, and a caller that fails leaves neither a value nor the lock behind. -/
structure Moves (spot : Spot σ ν) (P : σ → σ → Except Fault ν → Prop) (c c' : Stage σ ν) (o o' : Once ν) :
    Prop where
  sound : c'.Sound spot P o'.value
  makes : c'.makes.toNat + o.locked.toNat = c.makes.toNat + o'.locked.toNat
  succeeded : c'.succeeded.toNat + o.value.isSome.toNat = c.succeeded.toNat + o'.value.isSome.toNat
  vacant : o'.locked = true → o'.value = none
  stays : ∀ v, o.value = some v → o'.value = some v
  failed : c'.failed = true → c.failed = false → o' = {}

variable {P : σ → σ → Except Fault ν → Prop} {c c' : Stage σ ν} {o o' : Once ν} {s since : σ}

theorem Sound.mono {value value' : Option ν} (h : c.Sound spot P value)
    (hstays : ∀ v, value = some v → value' = some v) : c.Sound spot P value' := by
  cases h with
  | fresh => exact .fresh
  | queued => exact .queued
  | making hends hapart => exact .making hends hapart
  | failed h => exact .failed h
  | made hvalue h => exact .made (hstays _ hvalue) h
  | found hvalue => exact .found (hstays _ hvalue)

/-- The caller neither holds the lock nor makes the value, and the spot is unchanged. -/
theorem Moves.aside (hsound : c'.Sound spot P o.value) (hmakes : c'.makes = c.makes)
    (hsucceeded : c'.succeeded = c.succeeded) (hfailed : c'.failed = c.failed)
    (hvacant : o.locked = true → o.value = none) :
    Moves spot P c c' o o where
  sound := hsound
  makes := by rw [hmakes]
  succeeded := by rw [hsucceeded]
  vacant := hvacant
  stays _ := id
  failed h h' := by
    rw [hfailed, h'] at h
    cases h

/-- The caller that makes a missing value holds the lock or releases it, and has made the value if it is
there. -/
theorem Moves.alone (hmakes : c.makes = o.locked) (hnot : c.succeeded = false) (hnone : o.value = none)
    (hsound : c'.Sound spot P o'.value) (hmakes' : c'.makes = o'.locked)
    (hsucceeded : c'.succeeded = o'.value.isSome) (hvacant : o'.locked = true → o'.value = none)
    (hfailed : c'.failed = true → o' = {}) : Moves spot P c c' o o' where
  sound := hsound
  makes := by rw [hmakes, hmakes', Nat.add_comm]
  succeeded := by
    rw [hsucceeded, hnot, hnone]
    exact Nat.add_comm _ _
  vacant := hvacant
  stays v hv := by
    rw [hnone] at hv
    cases hv
  failed h _ := hfailed h

variable (hlaw : spot.Lawful)

include hlaw

theorem look_lock : spot.look (spot.lock s) = ⟨(spot.look s).value, true⟩ := hlaw.look_store _ _

theorem look_unlock : spot.look (spot.unlock s) = ⟨(spot.look s).value, false⟩ := hlaw.look_store _ _

theorem look_keep (v : ν) : spot.look (spot.keep v s) = ⟨some v, (spot.look s).locked⟩ :=
  hlaw.look_store _ _

/-- The caller that makes the value goes on or is finished. -/
theorem moves_settle {x : Work σ ν × σ} (hmakes : c.makes = o.locked) (hnot : c.succeeded = false)
    (hnone : o.value = none) (hlook : spot.look x.2 = ⟨none, true⟩) (hapart : spot.apart.Abides x.1)
    (hends : (∃ r, x.1 = .done r ∧ P since x.2 r) ∨ ∀ t, Ends (P since) x.1 t) :
    Moves spot P c (settle spot since x).1 o (spot.look (settle spot since x).2) := by
  have hgoes : ∀ rest s, (∀ t, Ends (P since) rest t) → spot.apart.Abides rest →
      spot.look s = ⟨none, true⟩ → Moves spot P c (.making since rest) o (spot.look s) := by
    intro rest s hends hapart hlook
    rw [hlook]
    exact .alone hmakes hnot hnone (.making hends hapart) rfl rfl (fun _ => rfl) nofun
  obtain ⟨rest, s⟩ := x
  cases rest with
  | done r =>
    have hresult : P since s r := by
      rcases hends with ⟨r', hr, h⟩ | h
      · cases hr
        exact h
      · exact h s
    cases r with
    | ok v =>
      rw [settle, look_unlock hlaw, look_keep hlaw]
      exact .alone hmakes hnot hnone (.made rfl hresult) rfl rfl nofun nofun
    | error f =>
      rw [settle, look_unlock hlaw, hlook]
      exact .alone hmakes hnot hnone (.failed hresult) rfl rfl nofun fun _ => rfl
  | _ => exact hgoes _ s (hends.resolve_left fun ⟨r, hr, _⟩ => nomatch hr) hapart hlook

omit hlaw in
theorem since?_settle (x : Work σ ν × σ) : (settle spot since x).1.since? = some since := by
  obtain ⟨rest, s⟩ := x
  cases rest with
  | done r => cases r <;> rfl
  | _ => rfl

omit hlaw in
/-- A caller makes the value from one state only. -/
theorem since?_stays (h : c.since? = some since) : (c.turn spot make s).1.since? = some since := by
  cases c with
  | making since' rest =>
    cases h
    exact since?_settle _
  | made since' last r => exact h
  | _ => cases h

/-- If the value is missing and the lock is free, a caller begins to make the value in its turn. -/
theorem since?_turn (hc : c = .fresh ∨ c = .queued) (hnew : spot.look s = {}) :
    (c.turn spot make s).1.since? = some s := by
  have henter : (enterIfFree spot make s).1.since? = some s := by
    have hfree : spot.isFree s = true := by rw [Spot.isFree, hnew]; rfl
    have hmissing : (spot.look (spot.lock s)).value = none := by rw [look_lock hlaw, hnew]
    rw [enterIfFree, if_pos hfree, enter, hmissing]
    exact since?_settle _
  rcases hc with rfl | rfl
  · rw [turn, hnew]
    exact henter
  · exact henter

variable (hmake : ∀ s, Ends (P s) make (spot.lock s)) (hapart : spot.apart.Abides make)

include hmake hapart

/-- A caller that does not make the value takes the lock or waits for it. -/
theorem moves_enterIfFree (hmakes : c.makes = false) (hnot : c.succeeded = false) (hfailed : c.failed = false)
    (hnone : (spot.look s).locked = true → (spot.look s).value = none) :
    Moves spot P c (enterIfFree spot make s).1 (spot.look s) (spot.look (enterIfFree spot make s).2) := by
  rw [enterIfFree]
  split
  case isFalse => exact .aside .queued hmakes.symm hnot.symm hfailed.symm hnone
  case isTrue hfree =>
    have hunlocked : (spot.look s).locked = false := by simpa [Spot.isFree] using hfree
    rw [enter, look_lock hlaw]
    cases hvalue : (spot.look s).value with
    | some v =>
      have hsame : spot.look (spot.unlock (spot.lock s)) = spot.look s := by
        rw [look_unlock hlaw, look_lock hlaw, ← hunlocked]
      rw [hsame]
      exact .aside (.found hvalue) hmakes.symm hnot.symm hfailed.symm hnone
    | none =>
      obtain ⟨hkeeps, habides⟩ := (hapart (spot.lock s)).resume
      refine moves_settle hlaw (hmakes.trans hunlocked.symm) hnot hvalue ?_ habides (hmake s).resume
      exact hkeeps.trans (by rw [look_lock hlaw, hvalue])

/-- A turn of a caller at any stage. -/
theorem moves_turn (hsound : c.Sound spot P (spot.look s).value)
    (hlocked : c.makes = true → (spot.look s).locked = true)
    (hnone : (spot.look s).locked = true → (spot.look s).value = none) :
    Moves spot P c (c.turn spot make s).1 (spot.look s) (spot.look (c.turn spot make s).2) := by
  cases hsound with
  | fresh =>
    rw [turn]
    cases hvalue : (spot.look s).value with
    | some v => exact .aside (.found hvalue) rfl rfl rfl hnone
    | none => exact moves_enterIfFree hlaw hmake hapart rfl rfl rfl hnone
  | queued => exact moves_enterIfFree hlaw hmake hapart rfl rfl rfl hnone
  | @making since rest hends hrest =>
    have htaken : (spot.look s).locked = true := hlocked rfl
    obtain ⟨hkeeps, habides⟩ := hrest.turn s
    refine moves_settle hlaw htaken.symm rfl (hnone htaken) ?_ habides (Ends.turn hends s)
    rw [hkeeps, ← hnone htaken, ← htaken]
  | failed h => exact .aside (.failed h) rfl rfl rfl hnone
  | made hvalue h => exact .aside (.made hvalue h) rfl rfl rfl hnone
  | found hvalue => exact .aside (.found hvalue) rfl rfl rfl hnone

end Stage

end Once

end Polyscan
