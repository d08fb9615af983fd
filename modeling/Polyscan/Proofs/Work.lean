import Polyscan.Work.Once

/-! Work that runs alone, by its combinators. -/
namespace Polyscan.Work

variable {σ α β : Type}

@[simp] theorem drive_pure (x : α) (s : σ) : (pure x : Work σ α).drive s = (.ok x, s) := rfl

@[simp] theorem drive_throw (f : Fault) (s : σ) : (throw f : Work σ α).drive s = (.error f, s) := rfl

@[simp] theorem drive_pause (n : Nat) (s : σ) : (pause n : Work σ Unit).drive s = (.ok (), s) := by
  induction n with
  | zero => rfl
  | succ n ih => exact ih

theorem drive_map (f : α → β) (w : Work σ α) (s : σ) :
    (f <$> w).drive s = ((w.drive s).1.map f, (w.drive s).2) := by
  change (w.bind (pure ∘ f)).drive s = _
  rw [drive_bind]
  rcases w.drive s with ⟨_ | x, s'⟩ <;> rfl

/-- Two steps return if the first one does, and the second one does from the state in which the first one
ended. -/
theorem drive_bind_eq_ok_iff {w : Work σ α} {f : α → Work σ β} {s u : σ} {y : β} :
    (w.bind f).drive s = (.ok y, u) ↔ ∃ x t, w.drive s = (.ok x, t) ∧ (f x).drive t = (.ok y, u) := by
  rw [drive_bind]
  constructor
  · intro h
    cases hw : w.drive s with
    | mk r t =>
      rw [hw] at h
      cases r with
      | ok x => exact ⟨x, t, rfl, h⟩
      | error e => cases h
  · intro h
    obtain ⟨x, t, hw, hf⟩ := h
    rw [hw]
    exact hf

@[simp] theorem drive_attempt (w : Work σ α) (s : σ) :
    w.attempt.drive s = (.ok (w.drive s).1, (w.drive s).2) := by
  induction w generalizing s with
  | done r => rfl
  | get next ih => exact ih s s
  | put s' next ih => exact ih s'
  | wait ready next ih => exact ih s

theorem effect_bind (e : Effect σ α) (f : α → Effect σ β) (s : σ) :
    (e >>= f) s =
      match e s with
      | (.ok x, s') => f x s'
      | (.error fault, s') => (.error fault, s') := by
  change (ExceptT.bindCont f (e s).1 : StateM σ (Except Fault β)) (e s).2 = _
  rcases e s with ⟨_ | x, s'⟩ <;> rfl

/-- Two effects run one after the other. -/
theorem drive_now_bind (e : Effect σ α) (f : α → Effect σ β) (s : σ) :
    (now (e >>= f)).drive s = ((now e).bind fun x => now (f x)).drive s := by
  rw [drive_bind, drive_now, drive_now, effect_bind]
  rfl

theorem drive_ensuring (cleanUp : σ → σ) (w : Work σ α) (s : σ) :
    (w.ensuring cleanUp).drive s = ((w.drive s).1, cleanUp (w.drive s).2) := by
  rw [ensuring, drive_bind, drive_attempt]
  rfl

theorem drive_acquire (isFree : σ → Bool) (take : σ → σ) (s : σ) :
    (acquire isFree take).drive s = (.ok (), take s) := by
  change (if isFree s then put (take s) (pure ())
    else wait isFree (get fun s => put (take s) (pure ()))).drive s = _
  split <;> rfl

end Polyscan.Work
