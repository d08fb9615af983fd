import Polyscan.Proofs.Json.Notation

/-!
JSON text that ends with a given object. Text in front of the object cannot contain its beginning: an open
string ends at the quote of the first key, and open lists and objects miss their brackets. So the whole is
JSON only if nothing but white space stands in front of the object.
-/
namespace Polyscan.Json

theorem exists_of_bind_eq_ok {ε α β : Type} {x : Except ε α} {f : α → Except ε β} {b : β}
    (h : x >>= f = .ok b) : ∃ a, x = .ok a ∧ f a = .ok b := by
  cases x with
  | error e => cases h
  | ok a => exact ⟨a, rfl, h⟩

/-! ## More fuel -/

variable {τ : Type} [DecidableEq τ] [IsText τ]

theorem value_more {fuel : Nat} {s : List Char} {x : Json τ × List Char}
    (hitems : ∀ s (x : List (Json τ) × List Char), items fuel s = .ok x → items (fuel + 1) s = .ok x)
    (hfields : ∀ read s (x : List (τ × Json τ) × List Char),
      fields fuel read s = .ok x → fields (fuel + 1) read s = .ok x)
    (h : value (fuel + 1) s = .ok x) : value (fuel + 2) s = .ok x := by
  rw [value.eq_def] at h ⊢
  dsimp only at h ⊢
  split at h
  · exact h
  · next rest =>
    split at h
    · exact h
    · obtain ⟨y, hread, h⟩ := exists_of_bind_eq_ok h
      rw [hitems _ _ hread]
      exact h
  · next rest =>
    split at h
    · exact h
    · obtain ⟨y, hread, h⟩ := exists_of_bind_eq_ok h
      rw [hfields _ _ _ hread]
      exact h
  · exact h

theorem items_more_fuel {fuel : Nat} {s : List Char} {x : List (Json τ) × List Char}
    (hvalue : ∀ s (x : Json τ × List Char), value fuel s = .ok x → value (fuel + 1) s = .ok x)
    (hitems : ∀ s (x : List (Json τ) × List Char), items fuel s = .ok x → items (fuel + 1) s = .ok x)
    (h : items (fuel + 1) s = .ok x) : items (fuel + 2) s = .ok x := by
  rw [items.eq_def] at h ⊢
  dsimp only at h ⊢
  obtain ⟨y, hread, h⟩ := exists_of_bind_eq_ok h
  rw [hvalue _ _ hread]
  dsimp only [bind, Except.bind] at h ⊢
  split at h
  · exact h
  · obtain ⟨z, hmore, h⟩ := exists_of_bind_eq_ok h
    rw [hitems _ _ hmore]
    exact h
  · exact h

theorem fields_more_fuel {fuel : Nat} {read : List (τ × Json τ)} {s : List Char}
    {x : List (τ × Json τ) × List Char}
    (hvalue : ∀ s (x : Json τ × List Char), value fuel s = .ok x → value (fuel + 1) s = .ok x)
    (hfields : ∀ read s (x : List (τ × Json τ) × List Char),
      fields fuel read s = .ok x → fields (fuel + 1) read s = .ok x)
    (h : fields (fuel + 1) read s = .ok x) : fields (fuel + 2) read s = .ok x := by
  rw [fields.eq_def] at h ⊢
  dsimp only at h ⊢
  split at h
  · obtain ⟨name, hname, h⟩ := exists_of_bind_eq_ok h
    rw [hname]
    dsimp only [bind, Except.bind] at h ⊢
    split at h
    · obtain ⟨y, hread, h⟩ := exists_of_bind_eq_ok h
      rw [hvalue _ _ hread]
      dsimp only [bind, Except.bind] at h ⊢
      split at h
      · exact h
      · exact hfields _ _ _ h
      · exact h
    · exact h
  · exact h

/-- A value that is read is read with more fuel. -/
theorem value_mono {fuel more : Nat} {s : List Char} {x : Json τ × List Char} (hle : fuel ≤ more)
    (h : value fuel s = .ok x) : value more s = .ok x := by
  have hstep : ∀ fuel, (∀ s (x : Json τ × List Char), value fuel s = .ok x → value (fuel + 1) s = .ok x) ∧
      (∀ s (x : List (Json τ) × List Char), items fuel s = .ok x → items (fuel + 1) s = .ok x) ∧
      ∀ read s (x : List (τ × Json τ) × List Char),
        fields fuel read s = .ok x → fields (fuel + 1) read s = .ok x := by
    intro fuel
    induction fuel with
    | zero => exact ⟨fun _ _ h => (nomatch h), fun _ _ h => (nomatch h), fun _ _ _ h => (nomatch h)⟩
    | succ fuel ih =>
      exact ⟨fun _ _ => value_more ih.2.1 ih.2.2, fun _ _ => items_more_fuel ih.1 ih.2.1,
        fun _ _ _ => fields_more_fuel ih.1 ih.2.2⟩
  induction hle with
  | refl => exact h
  | step hle ih => exact (hstep _).1 _ _ ih

/-! ## What is read without a brace -/

/-- Reading characters of a text, none of them a brace, leaves the given rest. -/
def Leaves (s r : List Char) : Prop := ∃ q, s = q ++ r ∧ '\x7b' ∉ q

theorem Leaves.refl (s : List Char) : Leaves s s := ⟨[], rfl, List.not_mem_nil⟩

theorem Leaves.trans {s t r : List Char} (h : Leaves s t) (h' : Leaves t r) : Leaves s r := by
  obtain ⟨p, rfl, hp⟩ := h
  obtain ⟨q, rfl, hq⟩ := h'
  exact ⟨p ++ q, by rw [List.append_assoc], by simp [hp, hq]⟩

theorem Leaves.cons {c : Char} (hc : '\x7b' ≠ c) {s r : List Char} (h : Leaves s r) :
    Leaves (c :: s) r := by
  obtain ⟨q, rfl, hq⟩ := h
  exact ⟨c :: q, rfl, by simp [hc, hq]⟩

theorem leaves_digits (s : List Char) : Leaves s (s.dropWhile isAsciiDigit) :=
  ⟨s.takeWhile isAsciiDigit, List.takeWhile_append_dropWhile.symm, fun hmem =>
    absurd (List.mem_takeWhile_imp hmem) (by decide)⟩

theorem leaves_wholePart {s ds r : List Char} (h : wholePart? s = some (ds, r)) : Leaves s r := by
  unfold wholePart? at h
  split at h
  · cases h
    exact (Leaves.refl _).cons (by decide)
  · split at h
    · cases h
    · cases h
      exact leaves_digits s

theorem leaves_fractionPart (s : List Char) : Leaves s (fractionPart s).2 := by
  unfold fractionPart
  split
  · split
    · exact Leaves.refl _
    · exact (leaves_digits _).cons (by decide)
  · exact Leaves.refl _

theorem leaves_exponentSign (s : List Char) : Leaves s (exponentSign s).2 := by
  unfold exponentSign
  split
  · exact (Leaves.refl _).cons (by decide)
  · exact (Leaves.refl _).cons (by decide)
  · exact Leaves.refl _

theorem leaves_exponentPart (s : List Char) : Leaves s (exponentPart s).2 := by
  unfold exponentPart
  split
  · exact Leaves.refl _
  split
  · next he =>
    dsimp only
    split
    · exact Leaves.refl _
    · refine ((leaves_exponentSign _).trans (leaves_digits _)).cons ?_
      rintro rfl
      revert he
      decide
  · exact Leaves.refl _

theorem leaves_number {negative : Bool} {start s r : List Char} {σ : Type} {v : Json σ}
    (h : number negative start s = .ok (v, r)) : Leaves s r := by
  unfold number at h
  split at h
  · cases h
  next whole rest hwhole =>
  have hrest := (leaves_wholePart hwhole).trans
    ((leaves_fractionPart rest).trans (leaves_exponentPart _))
  dsimp only at h
  split at h
  · split at h
    · cases h
    · obtain ⟨-, rfl⟩ := Prod.mk.inj (Except.ok.inj h)
      exact hrest
  · obtain ⟨-, rfl⟩ := Prod.mk.inj (Except.ok.inj h)
    exact hrest

/-- No brace is read with a word or a number. -/
theorem leaves_scalar {s r : List Char} {σ : Type} {v : Json σ} (h : scalar s = .ok (v, r)) : Leaves s r := by
  rcases scalar_cases h with ⟨word, hword, rfl⟩ | ⟨rest, rfl, hnumber⟩ | hnumber
  · refine ⟨word, rfl, ?_⟩
    simp only [words, List.mem_cons, List.not_mem_nil, or_false, Prod.mk.injEq] at hword
    rcases hword with ⟨rfl, -⟩ | ⟨rfl, -⟩ | ⟨rfl, -⟩ | ⟨rfl, -⟩ | ⟨rfl, -⟩ | ⟨rfl, -⟩ <;> decide
  · exact (leaves_number hnumber).cons (by decide)
  · exact leaves_number hnumber

/-! ## An object behind other text -/

theorem skipSpace_append_brace (p t : List Char) :
    skipSpace (p ++ '\x7b' :: t) = skipSpace p ++ '\x7b' :: t := by
  induction p with
  | nil => exact skipSpace_of_not rfl t
  | cons c rest ih =>
    cases hc : isSpace c with
    | false => rw [List.cons_append, skipSpace_of_not hc, skipSpace_of_not hc, List.cons_append]
    | true =>
      have hskip : ∀ s, skipSpace (c :: s) = skipSpace s := fun s => by simp [skipSpace, hc]
      rw [List.cons_append, hskip, hskip, ih]

/-- What is read without a brace leaves the first brace behind. -/
theorem Leaves.brace {p t r : List Char} (h : Leaves (p ++ '\x7b' :: t) r) :
    ∃ q, r = q ++ '\x7b' :: t := by
  obtain ⟨read, hsplit, hfree⟩ := h
  rcases List.append_eq_append_iff.mp hsplit with ⟨more, rfl, hmore⟩ | ⟨q, -, hr⟩
  · cases more with
    | nil => exact ⟨[], hmore.symm⟩
    | cons c more =>
      cases hmore
      simp at hfree
  · exact ⟨q, hr⟩

theorem leaves_hex4? {s r : List Char} {n : Nat} (h : hex4? s = some (n, r)) : Leaves s r := by
  have hdigit : ∀ {c v}, Text.hexValue? c = some v → '\x7b' ≠ c := by
    rintro c v hv rfl
    cases hv
  match s, h with
  | a :: b :: c :: d :: rest, h =>
    simp only [hex4?, Option.bind_eq_bind, Option.bind_eq_some_iff] at h
    obtain ⟨x, hx, y, hy, z, hz, w, hw, h⟩ := h
    cases h
    exact ⟨[a, b, c, d], rfl, by simp [hdigit hx, hdigit hy, hdigit hz, hdigit hw]⟩

theorem unicodeEscape_brace {p t r : List Char} {point : CodePoint}
    (h : unicodeEscape (p ++ '\x7b' :: t) = .ok (point, r)) : ∃ q, r = q ++ '\x7b' :: t := by
  unfold unicodeEscape at h
  split at h
  · cases h
  next n rest hread =>
  obtain ⟨q, rfl⟩ := (leaves_hex4? hread).brace
  -- what follows the digits is the rest, or the second half of a pair is taken off it
  have hrest : ∀ d, (Except.ok (d, q ++ '\x7b' :: t) : Except ReadError _) = .ok (point, r) →
      ∃ q, r = q ++ '\x7b' :: t := by
    intro d heq
    cases heq
    exact ⟨q, rfl⟩
  split at h
  · cases h
  split at h
  · split at h
    · next tail htail =>
      split at h
      · exact hrest _ h
      split at h
      · cases h
      next m rest' hpair =>
      split at h
      · obtain ⟨-, rfl⟩ := Prod.mk.inj (Except.ok.inj h)
        have hpair := ((leaves_hex4? hpair).cons (by decide : '\x7b' ≠ 'u')).cons
          (by decide : '\x7b' ≠ '\\')
        rw [← htail] at hpair
        exact hpair.brace
      · exact hrest _ h
    · exact hrest _ h
  · exact hrest _ h

/-- A string ends before an object, or at the quote of its first name. -/
theorem stringBody_brace {start fuel : Nat} {read : List CodePoint} {p t r : List Char} {text : List CodePoint}
    (h : stringBody start fuel read (p ++ '\x7b' :: '"' :: t) = .ok (text, r)) :
    (∃ q, r = q ++ '\x7b' :: '"' :: t) ∨ r = t := by
  induction fuel generalizing read p with
  | zero => cases h
  | succ fuel ih =>
    cases p with
    | nil =>
      -- the brace belongs to the string, and the quote ends it
      rw [List.nil_append, stringBody.eq_def] at h
      dsimp only at h
      rw [if_neg (by decide), if_neg (by decide), if_neg (by decide)] at h
      cases fuel with
      | zero => cases h
      | succ fuel =>
        rw [stringBody.eq_def] at h
        dsimp only at h
        rw [if_pos rfl] at h
        cases h
        exact .inr rfl
    | cons c p =>
      rw [List.cons_append, stringBody.eq_def] at h
      dsimp only at h
      split at h
      · cases h
        exact .inl ⟨p, rfl⟩
      split at h
      · split at h
        · cases h
        · next tail htail =>
          cases p with
          | nil => cases htail
          | cons d p =>
            cases htail
            obtain ⟨y, hescape, h⟩ := exists_of_bind_eq_ok h
            obtain ⟨q, hq⟩ := unicodeEscape_brace hescape
            rw [hq] at h
            exact ih h
        · next e tail _ htail =>
          split at h
          · next d hd =>
            cases p with
            | nil =>
              cases htail
              cases hd
            | cons d p =>
              cases htail
              exact ih h
          · cases h
      split at h
      · cases h
      · exact ih h

/-- An object whose first name begins with a character. -/
abbrev objectText (c : Char) (body : List Char) : List Char := '\x7b' :: '"' :: c :: body

variable {fuel : Nat} {c : Char} {body : List Char}

/-- An object that begins with a name, and with which a text ends. The first character of the name goes on
with nothing that was begun before the object, and behind the object there are only spaces. -/
structure IsLastObject (τ : Type) [DecidableEq τ] [IsText τ] (c : Char) (body : List Char) : Prop where
  isNeutral : isSpace c = false ∧ c ∉ [',', ':', ']', '\x7d']
  isWhole : ∀ fuel (v : Json τ) r, value fuel (objectText c body) = .ok (v, r) → skipSpace r = []

/-- What remains when a value has been read of a text in front of an object: the object, or what is behind
its first quote, or nothing if the value is the object. -/
def Remains (c : Char) (body p r : List Char) : Prop :=
  (∃ q, r = q ++ objectText c body) ∨ r = c :: body ∨ p = [] ∧ skipSpace r = []

/-- After a value in front of the object, the punctuation of a list or an object is in front of it too. -/
theorem Remains.skipSpace (h : IsLastObject τ c body) {p r s : List Char} (hr : Remains c body p r) {d : Char}
    (hd : d ∈ [',', ':', ']', '\x7d']) (hs : skipSpace r = d :: s) :
    ∃ q, s = q ++ objectText c body := by
  rcases hr with ⟨q, rfl⟩ | rfl | ⟨-, hnil⟩
  · rw [skipSpace_append_brace] at hs
    cases hq : Json.skipSpace q with
    | nil =>
      rw [hq] at hs
      cases hs
      exact absurd hd (by decide)
    | cons e q =>
      rw [hq] at hs
      cases hs
      exact ⟨q, rfl⟩
  · rw [skipSpace_of_not h.isNeutral.1] at hs
    cases hs
    exact absurd hd h.isNeutral.2
  · rw [hnil] at hs
    cases hs

theorem value_brace (h : IsLastObject τ c body)
    (hitems : ∀ p (vs : List (Json τ)) r, items fuel (p ++ objectText c body) = .ok (vs, r) →
      ∃ q, r = q ++ objectText c body)
    (hfields : ∀ read p (fs : List (τ × Json τ)) r, fields fuel read (p ++ objectText c body) = .ok (fs, r) →
      ∃ q, r = q ++ objectText c body)
    {p r : List Char} {v : Json τ}
    (hread : value (fuel + 1) (p ++ objectText c body) = .ok (v, r)) : Remains c body p r := by
  cases p with
  | nil => exact .inr (.inr ⟨rfl, h.isWhole _ v r hread⟩)
  | cons d p =>
    rw [List.cons_append, value.eq_def] at hread
    dsimp only at hread
    split at hread
    · next rest heq =>
      cases heq
      obtain ⟨y, hstring, hread⟩ := exists_of_bind_eq_ok hread
      cases hread
      exact (stringBody_brace hstring).imp_right .inl
    · next rest heq =>
      cases heq
      split at hread
      · next rest' hskip =>
        cases hread
        exact .inl (Remains.skipSpace h (p := p) (.inl ⟨p, rfl⟩) (by decide) hskip)
      · obtain ⟨y, hmore, hread⟩ := exists_of_bind_eq_ok hread
        cases hread
        rw [skipSpace_append_brace] at hmore
        exact .inl (hitems _ _ _ hmore)
    · next rest heq =>
      cases heq
      split at hread
      · next rest' hskip =>
        cases hread
        exact .inl (Remains.skipSpace h (p := p) (.inl ⟨p, rfl⟩) (by decide) hskip)
      · obtain ⟨y, hmore, hread⟩ := exists_of_bind_eq_ok hread
        cases hread
        rw [skipSpace_append_brace] at hmore
        exact .inl (hfields _ _ _ _ hmore)
    · rw [← List.cons_append] at hread
      exact .inl (leaves_scalar hread).brace

theorem items_brace (h : IsLastObject τ c body)
    (hvalue : ∀ p (v : Json τ) r, value fuel (p ++ objectText c body) = .ok (v, r) → Remains c body p r)
    (hitems : ∀ p (vs : List (Json τ)) r, items fuel (p ++ objectText c body) = .ok (vs, r) →
      ∃ q, r = q ++ objectText c body)
    {p r : List Char} {vs : List (Json τ)}
    (hread : items (fuel + 1) (p ++ objectText c body) = .ok (vs, r)) :
    ∃ q, r = q ++ objectText c body := by
  rw [items.eq_def] at hread
  dsimp only at hread
  obtain ⟨y, hfirst, hread⟩ := exists_of_bind_eq_ok hread
  have hremains := hvalue _ _ _ hfirst
  split at hread
  · next rest' hskip =>
    cases hread
    exact hremains.skipSpace h (by decide) hskip
  · next rest' hskip =>
    obtain ⟨q, rfl⟩ := hremains.skipSpace h (by decide) hskip
    obtain ⟨z, hmore, hread⟩ := exists_of_bind_eq_ok hread
    cases hread
    rw [skipSpace_append_brace] at hmore
    exact hitems _ _ _ hmore
  · cases hread

theorem fields_brace (h : IsLastObject τ c body)
    (hvalue : ∀ p (v : Json τ) r, value fuel (p ++ objectText c body) = .ok (v, r) → Remains c body p r)
    (hfields : ∀ read p (fs : List (τ × Json τ)) r, fields fuel read (p ++ objectText c body) = .ok (fs, r) →
      ∃ q, r = q ++ objectText c body)
    {read : List (τ × Json τ)} {p r : List Char} {fs : List (τ × Json τ)}
    (hread : fields (fuel + 1) read (p ++ objectText c body) = .ok (fs, r)) :
    ∃ q, r = q ++ objectText c body := by
  rw [fields.eq_def] at hread
  dsimp only at hread
  split at hread
  · next rest heq =>
    cases p with
    | nil => cases heq
    | cons d p =>
    cases heq
    obtain ⟨y, hname, hread⟩ := exists_of_bind_eq_ok hread
    have hremains : Remains c body p y.2 := (stringBody_brace hname).imp_right .inl
    split at hread
    · next rest' hskip =>
      obtain ⟨q, rfl⟩ := hremains.skipSpace h (by decide) hskip
      rw [skipSpace_append_brace] at hread
      obtain ⟨z, hitem, hread⟩ := exists_of_bind_eq_ok hread
      have hbehind := hvalue _ _ _ hitem
      split at hread
      · next rest'' hskip =>
        cases hread
        exact hbehind.skipSpace h (by decide) hskip
      · next rest'' hskip =>
        obtain ⟨q', rfl⟩ := hbehind.skipSpace h (by decide) hskip
        rw [skipSpace_append_brace] at hread
        exact hfields _ _ _ _ hread
      · cases hread
    · cases hread
  · cases hread

/-- A value in front of the last object of a text ends before it, unless it is this object. -/
theorem value_remains (h : IsLastObject τ c body) {p r : List Char} {v : Json τ}
    (hread : value fuel (p ++ objectText c body) = .ok (v, r)) : Remains c body p r := by
  have hall : (∀ p (v : Json τ) r, value fuel (p ++ objectText c body) = .ok (v, r) → Remains c body p r) ∧
      (∀ p (vs : List (Json τ)) r, items fuel (p ++ objectText c body) = .ok (vs, r) →
        ∃ q, r = q ++ objectText c body) ∧
      ∀ read p (fs : List (τ × Json τ)) r, fields fuel read (p ++ objectText c body) = .ok (fs, r) →
        ∃ q, r = q ++ objectText c body := by
    clear hread
    induction fuel with
    | zero => exact ⟨fun _ _ _ h => (nomatch h), fun _ _ _ h => (nomatch h), fun _ _ _ _ h => (nomatch h)⟩
    | succ fuel ih =>
      exact ⟨fun _ _ _ => value_brace h ih.2.1 ih.2.2, fun _ _ _ => items_brace h ih.1 ih.2.1,
        fun _ _ _ _ => fields_brace h ih.1 ih.2.2⟩
  exact hall.1 _ _ _ hread

/-- A text that ends with an object holds a value only if nothing but spaces stands before the object. -/
theorem isSpace_of_read (h : IsLastObject τ c body) {p : List Char} {v : Json τ}
    (hread : read (p ++ objectText c body) = .ok v) : skipSpace p = [] := by
  unfold read at hread
  split at hread
  · cases hread
  · obtain ⟨y, hvalue, hread⟩ := exists_of_bind_eq_ok hread
    rw [skipSpace_append_brace] at hvalue
    dsimp only at hread
    split at hread
    · next hend =>
      rcases value_remains h hvalue with ⟨q, hq⟩ | hq | ⟨hp, -⟩
      · rw [hq, skipSpace_append_brace] at hend
        simp at hend
      · rw [hq, skipSpace_of_not h.isNeutral.1] at hend
        cases hend
      · exact hp
    · cases hread

/-- An object is the last one of its own text. -/
theorem isLastObject_of_write {fs : List (τ × Json τ)} (hfs : Notable (.obj fs))
    (hwrite : write (.obj fs) = objectText c body)
    (hc : isSpace c = false ∧ c ∉ [',', ':', ']', '\x7d']) : IsLastObject τ c body := by
  refine ⟨hc, fun fuel v r hread => ?_⟩
  obtain ⟨r', hwhole, hr'⟩ := value_write _ hfs (fuel + (write (.obj fs)).length) [] (by omega) closes_nil
  rw [← hwrite] at hread
  rw [List.append_nil, value_mono (Nat.le_add_right fuel _) hread] at hwhole
  cases hwhole
  exact hr'

end Polyscan.Json
