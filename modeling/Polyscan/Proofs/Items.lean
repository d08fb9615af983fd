import Mathlib.Data.List.Forall2
import Polyscan.Fault

/-! Lists of items: the first bad item of a search, and the results of `mapM`. -/
namespace Polyscan

/-! ## The first bad item -/

section

variable {α β γ : Type} {good : α → Prop} {items : List α}

/-- The item is bad, and all items before it are good. -/
def FirstBad (good : α → Prop) (items : List α) (x : α) : Prop :=
  ∃ before after, items = before ++ x :: after ∧ (∀ y ∈ before, good y) ∧ ¬ good x

theorem FirstBad.unique {x y : α} (hx : FirstBad good items x) (hy : FirstBad good items y) : x = y := by
  obtain ⟨before, after, hsplit, hbefore, hbad⟩ := hx
  obtain ⟨before', after', hsplit', hbefore', hbad'⟩ := hy
  rw [hsplit] at hsplit'
  -- of two different splits the longer one would have the other's bad item among its good ones
  rcases List.append_eq_append_iff.mp hsplit' with ⟨more, hlonger, hrest⟩ | ⟨more, hlonger, hrest⟩
  · cases more with
    | nil => exact (List.cons.inj hrest).1
    | cons z zs =>
      cases (List.cons.inj hrest).1
      exact absurd (hbefore' _ (by simp [hlonger])) hbad
  · cases more with
    | nil => exact (List.cons.inj hrest).1.symm
    | cons z zs =>
      cases (List.cons.inj hrest).1
      exact absurd (hbefore _ (by simp [hlonger])) hbad'

theorem FirstBad.cons {x y : α} (hx : FirstBad good items x) (hy : good y) :
    FirstBad good (y :: items) x := by
  obtain ⟨before, after, hsplit, hbefore, hbad⟩ := hx
  exact ⟨y :: before, after, by rw [hsplit, List.cons_append], List.forall_mem_cons.mpr ⟨hy, hbefore⟩, hbad⟩

/-- `findSome?` gives the problem of the first bad item. -/
theorem FirstBad.of_findSome? {problem : α → Option β} {b : β}
    (hgood : ∀ x, problem x = none ↔ good x) (hb : items.findSome? problem = some b) :
    ∃ x, FirstBad good items x ∧ problem x = some b := by
  obtain ⟨before, x, after, hsplit, hx, hbefore⟩ := List.findSome?_eq_some_iff.mp hb
  refine ⟨x, ⟨before, after, hsplit, fun y hy => (hgood y).mp (hbefore y hy), fun hx' => ?_⟩, hx⟩
  rw [(hgood x).mpr hx'] at hx
  cases hx

theorem findSome?_cons_eq_or (problem : α → Option β) (x : α) (rest : List α) :
    (x :: rest).findSome? problem = (problem x).or (rest.findSome? problem) := by
  cases hx : problem x with
  | none => rw [List.findSome?_cons, hx, Option.none_or]
  | some b => rw [List.findSome?_cons, hx, Option.some_or]

/-- `findSome?` through the parts of items goes item by item. -/
theorem findSome?_flatMap (problem : α → Option β) (parts : γ → List α) (whole : List γ) :
    (whole.flatMap parts).findSome? problem = whole.findSome? fun x => (parts x).findSome? problem := by
  induction whole with
  | nil => rfl
  | cons x rest ih => rw [List.flatMap_cons, List.findSome?_append, findSome?_cons_eq_or, ih]

end

/-! ## Partners -/

section

variable {α β : Type} {f : α → Except Fault β} {R : α → β → Prop} {l : List α} {m : List β}

/-- Every element on the left is related to one on the right. -/
theorem exists_partner (h : List.Forall₂ R l m) {x : α} (hx : x ∈ l) : ∃ y ∈ m, R x y := by
  induction h with
  | nil => cases hx
  | cons hab _ ih =>
    rcases List.mem_cons.mp hx with rfl | hx
    · exact ⟨_, List.mem_cons_self, hab⟩
    · obtain ⟨y, hy, hxy⟩ := ih hx
      exact ⟨y, List.mem_cons_of_mem _ hy, hxy⟩

theorem mapM_cons_eq (f : α → Except Fault β) (x : α) (rest : List α) :
    (x :: rest).mapM f =
      match f x with
      | .ok y => (rest.mapM f).map (y :: ·)
      | .error e => .error e := by
  rw [List.mapM_cons]
  cases f x with
  | ok y => cases rest.mapM f <;> rfl
  | error e => rfl

/-- `mapM` returns if and only if the function returns on every element. -/
theorem mapM_eq_ok_iff : l.mapM f = .ok m ↔ List.Forall₂ (fun x y => f x = .ok y) l m := by
  induction l generalizing m with
  | nil => simp [pure, Except.pure, eq_comm]
  | cons x rest ih =>
    simp only [List.mapM_cons, bind, Except.bind, List.forall₂_cons_left_iff]
    cases hx : f x with
    | error e => simp
    | ok y =>
      cases hrest : rest.mapM f with
      | error e =>
        have hnone : ∀ ys, ¬ List.Forall₂ (fun x y => f x = .ok y) rest ys := by
          intro ys hys
          rw [ih.mpr hys] at hrest
          cases hrest
        simp [hnone]
      | ok ys =>
        have hall : ∀ zs, List.Forall₂ (fun x y => f x = .ok y) rest zs ↔ ys = zs := by
          intro zs
          rw [← ih, hrest, Except.ok.injEq]
        simp [pure, Except.pure, hall, eq_comm]

/-- If every element has a related result, `mapM` returns a list of related results. -/
theorem exists_mapM (h : ∀ x ∈ l, ∃ y, f x = .ok y ∧ R x y) :
    ∃ ys, l.mapM f = .ok ys ∧ List.Forall₂ R l ys := by
  induction l with
  | nil => exact ⟨[], rfl, .nil⟩
  | cons x rest ih =>
    obtain ⟨y, hy, hxy⟩ := h x List.mem_cons_self
    obtain ⟨ys, hys, hall⟩ := ih fun z hz => h z (List.mem_cons_of_mem x hz)
    refine ⟨y :: ys, ?_, .cons hxy hall⟩
    rw [mapM_cons_eq, hy, hys]
    rfl

end

/-! ## Lists put together of two -/

/-- An element of `xs ++ ys` is in `xs` or in `ys`. -/
theorem append_eq_append_cons {α : Type} {xs ys before rest : List α} {x : α}
    (h : xs ++ ys = before ++ x :: rest) :
    (∃ between, xs = before ++ x :: between) ∨
      ∃ behind, before = xs ++ behind ∧ ys = behind ++ x :: rest := by
  rcases List.append_eq_append_iff.mp h with ⟨behind, hbefore, hys⟩ | ⟨behind, hxs, hys⟩
  · exact .inr ⟨behind, hbefore, hys⟩
  · cases behind with
    | nil => exact .inr ⟨[], by simpa using hxs.symm, by simpa using hys.symm⟩
    | cons b between =>
      rw [List.cons_append, List.cons.injEq] at hys
      exact .inl ⟨between, by rw [hxs, hys.1]⟩

end Polyscan
