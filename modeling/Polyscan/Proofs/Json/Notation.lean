import Polyscan.Proofs.Json.Escape
import Polyscan.Proofs.Json.Number
import Polyscan.Proofs.OrderedMap

/-!
What is written is read back. Each part of a value is followed by a character that belongs to none of
them, so the reader stops where the writer did.
-/
namespace Polyscan.Json

/-! ## Values -/

/-- The notation of a double is read as this double. -/
def ReadsBack (x : Double) : Prop := read (writeReal x) = .ok (.real x : Json)

variable {τ : Type} [IsText τ]

mutual

/-- A value that is read back as it is written: its whole numbers are not too long, its doubles are read
back, its strings have no surrogate pairs, and its objects have no name twice. -/
def Notable : Json τ → Prop
  | int n => (Nat.toDigits 10 n.natAbs).length ≤ digitLimit
  | real x => ReadsBack x
  | str t => Pairless t
  | arr items => NotableItems items
  | obj fields => (fields.map Prod.fst).Nodup ∧ NotableFields fields
  | _ => True

def NotableItems : List (Json τ) → Prop
  | [] => True
  | v :: rest => Notable v ∧ NotableItems rest

def NotableFields : List (τ × Json τ) → Prop
  | [] => True
  | (name, v) :: rest => Pairless name ∧ Notable v ∧ NotableFields rest

end

theorem skipSpace_of_not {c : Char} (hc : isSpace c = false) (rest : List Char) :
    skipSpace (c :: rest) = c :: rest := by
  simp [skipSpace, hc]

theorem skipSpace_of_closes {t : List Char} (ht : Closes t) : skipSpace t = t := by
  cases t with
  | nil => rfl
  | cons c rest =>
    refine skipSpace_of_not ?_ rest
    rcases ht c rfl with rfl | rfl | rfl <;> rfl

/-- Spaces make no difference to what follows them. -/
theorem skipSpace_spaces {p : List Char} (hp : skipSpace p = []) (s : List Char) :
    skipSpace (p ++ s) = skipSpace s := by
  induction p with
  | nil => rfl
  | cons c rest ih =>
    cases hc : isSpace c with
    | false =>
      rw [skipSpace_of_not hc] at hp
      cases hp
    | true =>
      have hskip : ∀ s, skipSpace (c :: s) = skipSpace s := fun s => by simp [skipSpace, hc]
      rw [hskip] at hp
      rw [List.cons_append, hskip, ih hp]

/-- Spaces at the end make no difference to what closes a value. -/
theorem skipSpace_append {r t : List Char} (hr : skipSpace r = []) (ht : Closes t) :
    skipSpace (r ++ t) = t := by
  rw [skipSpace_spaces hr, skipSpace_of_closes ht]

/-- The characters with which words and numbers begin. -/
def isScalarHead (c : Char) : Bool := isNumberChar c || c ∈ ['n', 't', 'f', 'N', 'I']

theorem isScalarHead_facts {c : Char} (h : isScalarHead c = true) :
    isSpace c = false ∧ c ≠ '"' ∧ c ≠ '[' ∧ c ≠ '\x7b' ∧ c ≠ ']' ∧ c ≠ '\ufeff' := by
  refine ⟨?_, ?_, ?_, ?_, ?_, ?_⟩
  · cases hspace : isSpace c with
    | false => rfl
    | true =>
      simp only [isSpace, Bool.or_eq_true, beq_iff_eq] at hspace
      rcases hspace with ((rfl | rfl) | rfl) | rfl <;> cases h
  all_goals
    rintro rfl
    cases h

theorem value_of_scalar [DecidableEq τ] {c : Char} (h : isScalarHead c = true) (fuel : Nat)
    (rest : List Char) :
    (value (fuel + 1) (c :: rest) : Except ReadError (Json τ × List Char)) = scalar (c :: rest) := by
  obtain ⟨-, hquote, hbracket, hbrace, -⟩ := isScalarHead_facts h
  rw [value]
  · simpa using hquote
  · simpa using hbracket
  · simpa using hbrace

theorem isScalarHead_writeReal {x : Double} (h : ReadsBack x) :
    ∃ c rest, writeReal x = c :: rest ∧ isScalarHead c = true := by
  cases x with
  | nan => exact ⟨'N', _, rfl, rfl⟩
  | infinity negative =>
    cases negative
    · exact ⟨'I', _, rfl, rfl⟩
    · exact ⟨'-', _, rfl, rfl⟩
  | finite negative m e =>
    cases hs : writeReal (.finite negative m e) with
    | nil =>
      rw [ReadsBack, hs] at h
      cases h
    | cons c rest =>
      have hc : c ∈ writeReal (.finite negative m e) := hs ▸ List.mem_cons_self
      exact ⟨c, rest, rfl, by rw [isScalarHead, isNumberChar_of_mem_text negative m e c hc, Bool.true_or]⟩

/-- A double is read back in front of what closes it. -/
theorem value_real [DecidableEq τ] {x : Double} (h : ReadsBack x) {t : List Char} (ht : Closes t)
    (fuel : Nat) :
    ∃ r, value (fuel + 1) (writeReal x ++ t) = .ok ((.real x : Json τ), r) ∧ skipSpace r = t := by
  obtain ⟨c, rest, hs, hc⟩ := isScalarHead_writeReal h
  obtain ⟨hspace, -, -, -, -, hmark⟩ := isScalarHead_facts hc
  rw [ReadsBack, hs, read] at h
  · rw [skipSpace_of_not hspace, List.length_cons, value_of_scalar hc] at h
    cases hscalar : (scalar (c :: rest) : Except ReadError (Json × List Char)) with
    | error e =>
      rw [hscalar] at h
      cases h
    | ok y =>
      obtain ⟨v, r⟩ := y
      rw [hscalar] at h
      cases hr : skipSpace r with
      | cons d more =>
        simp [bind, Except.bind, hr, failAt] at h
      | nil =>
        have hv : v = .real x := by simpa [bind, Except.bind, hr, pure, Except.pure] using h
        subst hv
        refine ⟨r ++ t, ?_, skipSpace_append hr ht⟩
        rw [hs, List.cons_append, value_of_scalar hc, ← List.cons_append]
        exact scalar_append ht (scalar_real hscalar)
  · simpa using hmark

/-- A value that is neither string, list nor object is read back in front of what closes it. -/
theorem value_scalar [DecidableEq τ] {v : Json τ} (h : scalar v.write = .ok (v, []))
    (hhead : ∃ c rest, v.write = c :: rest ∧ isScalarHead c = true) {t : List Char} (ht : Closes t)
    (fuel : Nat) : ∃ r, value (fuel + 1) (v.write ++ t) = .ok (v, r) ∧ skipSpace r = t := by
  obtain ⟨c, rest, hs, hc⟩ := hhead
  have happend := scalar_append ht h
  rw [hs] at happend ⊢
  rw [List.cons_append] at happend ⊢
  exact ⟨t, by rw [value_of_scalar hc, happend, List.nil_append], skipSpace_of_closes ht⟩

theorem isScalarHead_write_int (n : Int) :
    ∃ c rest, write (.int n : Json τ) = c :: rest ∧ isScalarHead c = true := by
  rw [write, Int.toString_eq_repr, Int.repr_eq_if]
  split
  · rw [Nat.repr_eq_ofList_toDigits, String.toList_ofList]
    cases hm : Nat.toDigits 10 n.toNat with
    | nil => exact absurd hm Nat.toDigits_ne_nil
    | cons d rest =>
      have hd : isNumberChar d = true := isNumberChar_of_mem_toDigits (hm ▸ List.mem_cons_self)
      exact ⟨d, rest, rfl, by rw [isScalarHead, hd, Bool.true_or]⟩
  · exact ⟨'-', _, by rw [String.toList_append]; rfl, rfl⟩

/-- No value begins with a space or with what closes a list. -/
theorem write_head {v : Json τ} (hv : Notable v) :
    ∃ c rest, v.write = c :: rest ∧ isSpace c = false ∧ c ≠ ']' ∧ c ≠ '\ufeff' := by
  have hscalar : (∃ c rest, v.write = c :: rest ∧ isScalarHead c = true) →
      ∃ c rest, v.write = c :: rest ∧ isSpace c = false ∧ c ≠ ']' ∧ c ≠ '\ufeff' := by
    rintro ⟨c, rest, hs, hc⟩
    obtain ⟨hspace, -, -, -, hbracket, hmark⟩ := isScalarHead_facts hc
    exact ⟨c, rest, hs, hspace, hbracket, hmark⟩
  cases v with
  | null => exact hscalar ⟨'n', _, rfl, rfl⟩
  | bool b => cases b <;> exact hscalar ⟨_, _, rfl, rfl⟩
  | int n => exact hscalar (isScalarHead_write_int n)
  | real x => exact hscalar (isScalarHead_writeReal hv)
  | str s => exact ⟨'"', _, rfl, rfl, by decide, by decide⟩
  | arr items => exact ⟨'[', _, rfl, rfl, by decide, by decide⟩
  | obj fields => exact ⟨'\x7b', _, rfl, rfl, by decide, by decide⟩

theorem skipSpace_write {v : Json τ} (hv : Notable v) (t : List Char) :
    skipSpace (v.write ++ t) = v.write ++ t := by
  obtain ⟨c, rest, hs, hc, -⟩ := write_head hv
  rw [hs, List.cons_append, skipSpace_of_not hc]

/-! ### Lists and objects, step by step -/

theorem writeItems_more (v w : Json τ) (rest : List (Json τ)) (t : List Char) :
    writeItems (v :: w :: rest) ++ t = v.write ++ ',' :: ' ' :: (writeItems (w :: rest) ++ t) := by
  simp [writeItems]

theorem writeFields_more (name : τ) (v : Json τ) (g : τ × Json τ) (rest : List (τ × Json τ))
    (t : List Char) :
    writeFields ((name, v) :: g :: rest) ++ t =
      writeString name ++ ':' :: ' ' :: (v.write ++ ',' :: ' ' :: (writeFields (g :: rest) ++ t)) := by
  simp [writeFields]

/-- A list that is not empty begins as its first value does. -/
theorem writeItems_head {v : Json τ} (hv : Notable v) (rest : List (Json τ)) :
    ∃ c s, writeItems (v :: rest) = c :: s ∧ isSpace c = false ∧ c ≠ ']' := by
  obtain ⟨c, s, hs, hc, hbracket, -⟩ := write_head hv
  cases rest with
  | nil => exact ⟨c, s, hs, hc, hbracket⟩
  | cons w rest =>
    refine ⟨c, s ++ ',' :: ' ' :: writeItems (w :: rest), ?_, hc, hbracket⟩
    simp [writeItems, hs]

theorem writeFields_head (f : τ × Json τ) (rest : List (τ × Json τ)) :
    ∃ s, writeFields (f :: rest) = '"' :: s := by
  cases rest <;> exact ⟨_, rfl⟩

theorem not_mem_of_nodup_append {κ ν : Type} {read rest : List (κ × ν)} {f : κ × ν}
    (h : ((read ++ f :: rest).map Prod.fst).Nodup) : f.1 ∉ read.map Prod.fst := by
  rw [List.map_append, List.nodup_append] at h
  exact fun hmem => h.2.2 f.1 hmem f.1 (by simp) rfl

section

variable [DecidableEq τ]

theorem items_last {fuel : Nat} {s r t : List Char} {v : Json τ} (h : value fuel s = .ok (v, r))
    (hr : skipSpace r = ']' :: t) : items (fuel + 1) s = .ok ([v], t) := by
  simp [items, h, hr, bind, Except.bind, pure, Except.pure]

theorem items_more {fuel : Nat} {s r s' t : List Char} {v : Json τ} {vs : List (Json τ)}
    (h : value fuel s = .ok (v, r)) (hr : skipSpace r = ',' :: s')
    (hrest : items fuel (skipSpace s') = .ok (vs, t)) : items (fuel + 1) s = .ok (v :: vs, t) := by
  simp [items, h, hr, hrest, bind, Except.bind, pure, Except.pure]

/-- A field is read; the next character says whether it is the last one. -/
theorem fields_read {fuel : Nat} {v : Json τ} {s r : List Char} (read : List (τ × Json τ)) {name : τ}
    (hname : Pairless name) {result : Except ReadError (List (τ × Json τ) × List Char)} (hv : Notable v)
    (hvalue : value fuel (v.write ++ s) = .ok (v, r))
    (h : (∃ t, skipSpace r = '\x7d' :: t ∧ result = .ok (OrderedMap.put name v read, t)) ∨
      ∃ t, skipSpace r = ',' :: t ∧ result = fields fuel (OrderedMap.put name v read) (skipSpace t)) :
    fields (fuel + 1) read (writeString name ++ ':' :: ' ' :: (v.write ++ s)) = result := by
  obtain ⟨body, hbody, hstring⟩ := stringBody_writeString hname (':' :: ' ' :: (v.write ++ s))
  have hskip : skipSpace (' ' :: (v.write ++ s)) = v.write ++ s := skipSpace_write hv s
  rw [hbody, fields, hstring]
  simp only [bind, Except.bind]
  rw [skipSpace_of_not (by rfl)]
  simp only [hskip, hvalue, IsText.ofPoints_points]
  rcases h with ⟨t, hr, rfl⟩ | ⟨t, hr, rfl⟩
  · simp only [hr]
    rfl
  · simp only [hr]

theorem value_arr {fuel : Nat} {c : Char} {s t : List Char} {vs : List (Json τ)} (hc : isSpace c = false)
    (hbracket : c ≠ ']') (h : items fuel (c :: s) = .ok (vs, t)) :
    value (fuel + 1) ('[' :: c :: s) = .ok (.arr vs, t) := by
  simp [value, skipSpace_of_not hc, hbracket, h, bind, Except.bind, pure, Except.pure]

theorem value_obj {fuel : Nat} {s t : List Char} {fs : List (τ × Json τ)}
    (h : fields fuel [] ('"' :: s) = .ok (fs, t)) :
    value (fuel + 1) ('\x7b' :: '"' :: s) = .ok (.obj fs, t) := by
  simp [value, skipSpace_of_not (show isSpace '"' = false from rfl), h, bind, Except.bind, pure,
    Except.pure]

/-! ### All values -/

mutual

/-- A value is read back in front of what closes it. -/
theorem value_write : ∀ (v : Json τ), Notable v → ∀ fuel t, v.write.length ≤ fuel → Closes t →
    ∃ r, value fuel (v.write ++ t) = .ok (v, r) ∧ skipSpace r = t
  | .null, _, fuel + 1, t, _, ht => value_scalar (by rfl) ⟨'n', _, rfl, rfl⟩ ht fuel
  | .bool true, _, fuel + 1, t, _, ht => value_scalar (by rfl) ⟨'t', _, rfl, rfl⟩ ht fuel
  | .bool false, _, fuel + 1, t, _, ht => value_scalar (by rfl) ⟨'f', _, rfl, rfl⟩ ht fuel
  | .int n, hv, fuel + 1, t, _, ht => value_scalar (scalar_int hv) (isScalarHead_write_int n) ht fuel
  | .real x, hv, fuel + 1, t, _, ht => value_real hv ht fuel
  | .str s, hs, fuel + 1, t, _, ht => by
    obtain ⟨body, hbody, hstring⟩ := stringBody_writeString hs t
    refine ⟨t, ?_, skipSpace_of_closes ht⟩
    rw [write, hbody, value, hstring]
    exact congrArg (fun t' => Except.ok (Json.str t', t)) (IsText.ofPoints_points s)
  | .arr [], _, fuel + 1, t, _, ht => ⟨t, rfl, skipSpace_of_closes ht⟩
  | .arr (v :: rest), hv, fuel + 1, t, hfuel, ht => by
    -- the brackets leave enough for what is between them
    have hlength : (writeItems (v :: rest)).length < fuel := by
      simp only [write, List.cons_append, List.length_cons, List.length_append, List.length_nil] at hfuel
      omega
    have hitems := items_write v rest hv fuel t hlength
    obtain ⟨c, s, hs, hc, hbracket⟩ := writeItems_head hv.1 rest
    rw [hs] at hitems
    refine ⟨t, ?_, skipSpace_of_closes ht⟩
    rw [write, hs, List.cons_append, List.cons_append, List.append_assoc]
    exact value_arr hc hbracket hitems
  | .obj [], _, fuel + 1, t, _, ht => ⟨t, rfl, skipSpace_of_closes ht⟩
  | .obj (f :: rest), hv, fuel + 1, t, hfuel, ht => by
    have hlength : (writeFields (f :: rest)).length < fuel := by
      simp only [write, List.cons_append, List.length_cons, List.length_append, List.length_nil] at hfuel
      omega
    have hfields := fields_write f rest hv.2 fuel [] t hv.1 hlength
    obtain ⟨s, hs⟩ := writeFields_head f rest
    rw [hs] at hfields
    refine ⟨t, ?_, skipSpace_of_closes ht⟩
    rw [write, hs, List.cons_append, List.cons_append, List.append_assoc]
    exact value_obj hfields
  | v, hv, 0, t, hfuel, ht => by
    obtain ⟨c, rest, hs, -⟩ := write_head hv
    rw [hs] at hfuel
    cases hfuel

/-- The values of a list are read back up to its bracket. -/
theorem items_write : ∀ (v : Json τ) (rest : List (Json τ)), NotableItems (v :: rest) → ∀ fuel t,
    (writeItems (v :: rest)).length < fuel →
      items fuel (writeItems (v :: rest) ++ ']' :: t) = .ok (v :: rest, t)
  | v, [], hv, fuel + 1, t, hfuel => by
    obtain ⟨r, hvalue, hr⟩ :=
      value_write v hv.1 fuel (']' :: t) (Nat.le_of_lt_succ hfuel) (by simp [Closes])
    exact items_last hvalue hr
  | v, w :: rest, hv, fuel + 1, t, hfuel => by
    simp only [writeItems, List.length_append, List.length_cons] at hfuel
    obtain ⟨r, hvalue, hr⟩ := value_write v hv.1 fuel
      (',' :: ' ' :: (writeItems (w :: rest) ++ ']' :: t)) (by omega) (by simp [Closes])
    have hrest := items_write w rest hv.2 fuel t (by omega)
    obtain ⟨c, s, hs, hc, -⟩ := writeItems_head hv.2.1 rest
    rw [writeItems_more]
    refine items_more hvalue hr ?_
    rw [hs, List.cons_append] at hrest ⊢
    rw [← hrest]
    exact congrArg (items fuel) (skipSpace_of_not hc _)

/-- The fields of an object are read back up to its brace, after those that were read before. -/
theorem fields_write : ∀ (f : τ × Json τ) (rest : List (τ × Json τ)), NotableFields (f :: rest) →
    ∀ fuel read t, ((read ++ f :: rest).map Prod.fst).Nodup → (writeFields (f :: rest)).length < fuel →
      fields fuel read (writeFields (f :: rest) ++ '\x7d' :: t) = .ok (read ++ f :: rest, t)
  | (name, v), [], hv, fuel + 1, read, t, hnodup, hfuel => by
    simp only [writeFields, List.length_append, List.length_cons] at hfuel
    obtain ⟨r, hvalue, hr⟩ := value_write v hv.2.1 fuel ('\x7d' :: t) (by omega) (by simp [Closes])
    have hread := fields_read read hv.1 hv.2.1 hvalue (.inl ⟨t, hr, rfl⟩)
    rw [OrderedMap.put_eq_append (not_mem_of_nodup_append hnodup)] at hread
    rw [← hread, writeFields]
    simp
  | (name, v), g :: rest, hv, fuel + 1, read, t, hnodup, hfuel => by
    obtain ⟨s, hs⟩ := writeFields_head g rest
    simp only [writeFields, List.length_append, List.length_cons] at hfuel
    obtain ⟨r, hvalue, hr⟩ := value_write v hv.2.1 fuel
      (',' :: ' ' :: (writeFields (g :: rest) ++ '\x7d' :: t)) (by omega) (by simp [Closes])
    have hrest := fields_write g rest hv.2.2 fuel (read ++ [(name, v)]) t (by simpa using hnodup) (by omega)
    have hskip : skipSpace (' ' :: (writeFields (g :: rest) ++ '\x7d' :: t)) =
        writeFields (g :: rest) ++ '\x7d' :: t := by
      rw [hs]
      rfl
    have hread := fields_read read hv.1 hv.2.1 hvalue (.inr ⟨_, hr, rfl⟩)
    rw [OrderedMap.put_eq_append (not_mem_of_nodup_append hnodup), hskip, hrest] at hread
    rw [writeFields_more, hread]
    simp

end

/-- What is written behind spaces is read back. -/
theorem read_spaces {p : List Char} (hp : skipSpace p = []) {v : Json τ} (hv : Notable v) :
    read (p ++ v.write) = .ok v := by
  obtain ⟨c, rest, hs, hc, -, hmark⟩ := write_head hv
  have hstart : ∀ more, p ++ v.write ≠ '\ufeff' :: more := by
    intro more heq
    cases p with
    | nil =>
      rw [List.nil_append, hs] at heq
      exact hmark (List.cons.inj heq).1
    | cons d p =>
      cases heq
      cases hp
  obtain ⟨r, hvalue, hr⟩ := value_write v hv ((p ++ v.write).length + 1) [] (by simp; omega) closes_nil
  rw [List.append_nil] at hvalue
  rw [read]
  · rw [skipSpace_spaces hp, hs, skipSpace_of_not hc, ← hs, hvalue]
    simp [bind, Except.bind, hr, pure, Except.pure]
  · exact hstart

/-- What is written is read back. -/
theorem read_write {v : Json τ} (hv : Notable v) : read v.write = .ok v :=
  read_spaces (p := []) rfl hv

end

/-! ### Characters of values -/

mutual

/-- Everything is written in plain characters. -/
theorem isPlain_of_mem_write : ∀ v : Json τ, ∀ c ∈ v.write, Text.IsPlain c
  | .null => Text.isPlain_of_all rfl
  | .bool true => Text.isPlain_of_all rfl
  | .bool false => Text.isPlain_of_all rfl
  | .int n => isPlain_of_mem_write_int n
  | .real x => isPlain_of_mem_writeReal x
  | .str s => isPlain_of_mem_writeString s
  | .arr items => List.forall_mem_cons.mpr
      ⟨by decide, List.forall_mem_append.mpr ⟨isPlain_of_mem_writeItems items, Text.isPlain_of_all rfl⟩⟩
  | .obj fields => List.forall_mem_cons.mpr
      ⟨by decide, List.forall_mem_append.mpr ⟨isPlain_of_mem_writeFields fields, Text.isPlain_of_all rfl⟩⟩

theorem isPlain_of_mem_writeItems : ∀ items : List (Json τ), ∀ c ∈ writeItems items, Text.IsPlain c
  | [] => fun _ hc => nomatch hc
  | [v] => isPlain_of_mem_write v
  | v :: w :: rest => List.forall_mem_append.mpr ⟨isPlain_of_mem_write v, List.forall_mem_cons.mpr
      ⟨by decide, List.forall_mem_cons.mpr ⟨by decide, isPlain_of_mem_writeItems (w :: rest)⟩⟩⟩

theorem isPlain_of_mem_writeFields :
    ∀ fields : List (τ × Json τ), ∀ c ∈ writeFields fields, Text.IsPlain c
  | [] => fun _ hc => nomatch hc
  | [(name, v)] => List.forall_mem_append.mpr ⟨isPlain_of_mem_writeString name, List.forall_mem_cons.mpr
      ⟨by decide, List.forall_mem_cons.mpr ⟨by decide, isPlain_of_mem_write v⟩⟩⟩
  | (name, v) :: g :: rest => List.forall_mem_append.mpr
      ⟨List.forall_mem_append.mpr ⟨isPlain_of_mem_writeString name, List.forall_mem_cons.mpr
        ⟨by decide, List.forall_mem_cons.mpr ⟨by decide, isPlain_of_mem_write v⟩⟩⟩,
      List.forall_mem_cons.mpr
        ⟨by decide, List.forall_mem_cons.mpr ⟨by decide, isPlain_of_mem_writeFields (g :: rest)⟩⟩⟩

end

end Polyscan.Json
