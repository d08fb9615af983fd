import Mathlib.Data.List.Basic
import Polyscan.Path

/-!
Absolute paths in normal form: a root and names separated by slashes. Statements about the text of such paths
become statements about their names: a path begins with a folder and a slash if and only if the names of the
folder are a proper prefix of its names.
-/
namespace Polyscan

/-! ## Cutting and joining -/

namespace Text

theorem pieces_of_not_mem {sep : Char} {l : List Char} (h : sep ∉ l) : pieces sep l = [l] := by
  induction l with
  | nil => rfl
  | cons c rest ih =>
    rw [List.mem_cons, not_or] at h
    rw [pieces, if_neg (Ne.symm h.1), ih h.2]

theorem not_mem_of_mem_pieces {sep : Char} {l p : List Char} (h : p ∈ pieces sep l) : sep ∉ p := by
  induction l generalizing p with
  | nil =>
    rw [pieces, List.mem_singleton] at h
    simp [h]
  | cons c rest ih =>
    unfold pieces at h
    by_cases hc : c = sep
    · rw [if_pos hc, List.mem_cons] at h
      rcases h with rfl | h
      · simp
      · exact ih h
    · rw [if_neg hc] at h
      cases hrest : pieces sep rest with
      | nil => exact absurd hrest (pieces_ne_nil sep rest)
      | cons first more =>
        rw [hrest] at h ih
        rcases List.mem_cons.mp h with rfl | h
        · simpa [Ne.symm hc] using ih List.mem_cons_self
        · exact ih (List.mem_cons_of_mem _ h)

theorem pieces_cons_self (sep : Char) (l : List Char) : pieces sep (sep :: l) = [] :: pieces sep l := by
  rw [pieces, if_pos rfl]

theorem joinChars_cons_cons (sep p q : List Char) (more : List (List Char)) :
    joinChars sep (p :: q :: more) = p ++ sep ++ joinChars sep (q :: more) := rfl

theorem mem_joinChars {sep : List Char} {parts : List (List Char)} {c : Char}
    (h : c ∈ joinChars sep parts) : c ∈ sep ∨ ∃ p ∈ parts, c ∈ p := by
  induction parts with
  | nil => cases h
  | cons p rest ih =>
    cases rest with
    | nil => exact .inr ⟨p, List.mem_cons_self, h⟩
    | cons q more =>
      rw [joinChars_cons_cons, List.mem_append, List.mem_append] at h
      rcases h with (hp | hsep) | hmore
      · exact .inr ⟨p, List.mem_cons_self, hp⟩
      · exact .inl hsep
      · exact (ih hmore).imp_right fun ⟨x, hx, hc⟩ => ⟨x, List.mem_cons_of_mem _ hx, hc⟩

theorem joinChars_append {sep : List Char} {parts more : List (List Char)} (hparts : parts ≠ [])
    (hmore : more ≠ []) : joinChars sep (parts ++ more) = joinChars sep parts ++ sep ++ joinChars sep more := by
  induction parts with
  | nil => exact absurd rfl hparts
  | cons p rest ih =>
    cases rest with
    | nil =>
      cases more with
      | nil => exact absurd rfl hmore
      | cons q more => rfl
    | cons q rest =>
      have hrest : joinChars sep (q :: (rest ++ more)) = joinChars sep (q :: rest) ++ sep ++ joinChars sep more :=
        ih (List.cons_ne_nil q rest)
      rw [List.cons_append, List.cons_append, joinChars_cons_cons, joinChars_cons_cons, hrest]
      simp only [List.append_assoc]

/-- What is joined ends with the last part, after a separator if there are parts before it. -/
theorem joinChars_snoc (sep : List Char) (parts : List (List Char)) (last : List Char) :
    joinChars sep (parts ++ [last]) = (if parts = [] then [] else joinChars sep parts ++ sep) ++ last := by
  split
  · next hnone =>
    rw [hnone]
    rfl
  · next hsome => exact joinChars_append hsome (List.cons_ne_nil last [])

/-- Cutting what was joined gives the parts back, if there are any and none holds a separator. -/
theorem pieces_joinChars {sep : Char} {parts : List (List Char)} (hne : parts ≠ [])
    (h : ∀ p ∈ parts, sep ∉ p) : pieces sep (joinChars [sep] parts) = parts := by
  induction parts with
  | nil => exact absurd rfl hne
  | cons p rest ih =>
    have hp : sep ∉ p := h p List.mem_cons_self
    cases rest with
    | nil => exact pieces_of_not_mem hp
    | cons q more =>
      have hrest : ∀ x ∈ q :: more, sep ∉ x := fun x hx => h x (List.mem_cons_of_mem _ hx)
      have hjoined : joinChars [sep] (p :: q :: more) = p ++ sep :: joinChars [sep] (q :: more) := by
        rw [joinChars_cons_cons, List.append_assoc, List.singleton_append]
      rw [hjoined, pieces_append_cons, pieces_of_not_mem hp, ih (by simp) hrest, List.singleton_append]

/-- What is put behind a text goes on with its last piece, up to a separator. -/
theorem pieces_append {sep : Char} {s t : List Char} {before : List (List Char)} {last : List Char}
    (h : pieces sep s = before ++ [last]) (ht : sep ∉ t) : pieces sep (s ++ t) = before ++ [last ++ t] := by
  have hpieces : ∀ p ∈ before ++ [last], sep ∉ p := fun p hp => not_mem_of_mem_pieces (h ▸ hp)
  have hparts : ∀ p ∈ before ++ [last ++ t], sep ∉ p := by
    intro p hp
    rcases List.mem_append.mp hp with hp | hp
    · exact hpieces p (List.mem_append_left _ hp)
    · rw [List.mem_singleton.mp hp, List.mem_append, not_or]
      exact ⟨hpieces last (by simp), ht⟩
  have hjoined : s ++ t = joinChars [sep] (before ++ [last ++ t]) := by
    rw [← joinChars_pieces sep s, h, joinChars_snoc, joinChars_snoc, List.append_assoc]
  rw [hjoined, pieces_joinChars (by simp) hparts]

theorem split_of_not_mem {sep : Char} {s : String} (h : sep ∉ s.toList) : split sep s = [s] := by
  unfold split
  rw [pieces_of_not_mem h, List.map_singleton, String.ofList_toList]

theorem split_append {sep : Char} {mid : String} (hmid : mid.toList = [sep]) (s t : String) :
    split sep (s ++ mid ++ t) = split sep s ++ split sep t := by
  unfold split
  rw [String.toList_append, String.toList_append, hmid, List.append_assoc, List.singleton_append,
    pieces_append_cons, List.map_append]

theorem split_join {sep : Char} {mid : String} (hmid : mid.toList = [sep]) {parts : List String}
    (hne : parts ≠ []) (hparts : ∀ p ∈ parts, sep ∉ p.toList) : split sep (join mid parts) = parts := by
  have hpieces : pieces sep (joinChars [sep] (parts.map String.toList)) = parts.map String.toList := by
    refine pieces_joinChars (by simpa using hne) fun p hp => ?_
    obtain ⟨part, hpart, rfl⟩ := List.mem_map.mp hp
    exact hparts part hpart
  unfold split join
  rw [String.toList_ofList, hmid, hpieces, List.map_map]
  simp

/-- Joining what was cut gives the text back. -/
theorem join_split {sep : Char} {mid : String} (hmid : mid.toList = [sep]) (s : String) :
    join mid (split sep s) = s := by
  have hparts : (split sep s).map String.toList = pieces sep s.toList := by
    unfold split
    rw [List.map_map]
    simp
  unfold join
  rw [hparts, hmid, joinChars_pieces, String.ofList_toList]

theorem not_mem_of_mem_split {sep : Char} {s part : String} (h : part ∈ split sep s) : sep ∉ part.toList := by
  obtain ⟨p, hp, rfl⟩ := List.mem_map.mp h
  rw [String.toList_ofList]
  exact not_mem_of_mem_pieces hp

theorem split_ne_nil (sep : Char) (s : String) : split sep s ≠ [] := by
  simp [split, pieces_ne_nil]

theorem mem_join {mid : String} {parts : List String} {c : Char} (h : c ∈ (join mid parts).toList) :
    c ∈ mid.toList ∨ ∃ p ∈ parts, c ∈ p.toList := by
  unfold join at h
  rw [String.toList_ofList] at h
  simpa using mem_joinChars h

/-- Nothing is dropped if the last elements are to stay. -/
theorem dropEnd_append_of_none {α : Type} {p : α → Bool} {l t : List α} (ht : t ≠ [])
    (h : ∀ x ∈ t, p x = false) : dropEnd p (l ++ t) = l ++ t := by
  obtain ⟨before, last, rfl⟩ := (List.eq_nil_or_concat' t).resolve_left ht
  have hlast : p last = false := h last (by simp)
  simp [dropEnd, hlast]

end Text

namespace Path

/-! ## Names and roots -/

/-- A name in a path: not empty, not a dot or a double dot, and without slashes. -/
structure IsName (c : String) : Prop where
  ne_empty : c ≠ ""
  ne_dot : c ≠ "."
  ne_dots : c ≠ ".."
  noSlash : '/' ∉ c.toList

instance (c : String) : Decidable (IsName c) :=
  decidable_of_iff (c ≠ "" ∧ c ≠ "." ∧ c ≠ ".." ∧ '/' ∉ c.toList)
    ⟨fun ⟨hempty, hdot, hdots, hslash⟩ => ⟨hempty, hdot, hdots, hslash⟩,
      fun h => ⟨h.ne_empty, h.ne_dot, h.ne_dots, h.noSlash⟩⟩

/-- The slashes that an absolute path in normal form begins with. -/
def IsRoot (root : String) : Prop := root = "/" ∨ root = "//"

/-- The path that leads from a root along names. -/
def ofNames (root : String) (names : List String) : String := root ++ Text.join "/" names

/-- An absolute path in normal form. -/
def Normal (p : String) : Prop :=
  ∃ root names, IsRoot root ∧ (∀ c ∈ names, IsName c) ∧ p = ofNames root names

/-- Names with a slash in front of each. -/
def spelled (names : List String) : List Char := names.flatMap fun c => '/' :: c.toList

theorem forall_isName_concat {names : List String} {name : String} (hnames : ∀ c ∈ names, IsName c)
    (hname : IsName name) : ∀ c ∈ names ++ [name], IsName c :=
  List.forall_mem_append.mpr ⟨hnames, List.forall_mem_singleton.mpr hname⟩

theorem IsName.cons {c : String} (h : IsName c) : ∃ x rest, c.toList = x :: rest ∧ x ≠ '/' := by
  cases hc : c.toList with
  | nil => exact absurd (String.toList_eq_nil_iff.mp hc) h.ne_empty
  | cons x rest =>
    refine ⟨x, rest, rfl, ?_⟩
    rintro rfl
    exact h.noSlash (hc ▸ List.mem_cons_self)

theorem IsName.relative {c : String} (h : IsName c) : isAbsolute c = false := by
  obtain ⟨x, rest, hx, hslash⟩ := h.cons
  simp [isAbsolute, Text.startsWith, hx, List.isPrefixOf, Ne.symm hslash]

theorem joinChars_eq_spelled {c : String} {rest : List String} :
    '/' :: Text.joinChars ['/'] ((c :: rest).map String.toList) = spelled (c :: rest) := by
  induction rest generalizing c with
  | nil => simp [spelled, Text.joinChars]
  | cons d more ih =>
    have hmore := ih (c := d)
    simp only [spelled, List.flatMap_cons] at hmore ⊢
    rw [List.map_cons, List.map_cons, Text.joinChars_cons_cons, ← List.map_cons, ← hmore]
    simp

theorem ofNames_nil (root : String) : ofNames root [] = root := String.append_empty

theorem toList_ofNames (root : String) (names : List String) :
    (ofNames root names).toList = root.toList ++ Text.joinChars ['/'] (names.map String.toList) := by
  simp [ofNames, Text.join]

theorem toList_ofNames_cons (c : String) (rest : List String) :
    (ofNames "/" (c :: rest)).toList = spelled (c :: rest) := by
  rw [toList_ofNames, ← joinChars_eq_spelled]
  rfl

/-! ## What is read off a path in normal form -/

section

variable {root : String} {names : List String}

/-- The slashes of the root only add empty pieces. -/
theorem pieces_ofNames (hroot : IsRoot root) (hnames : ∀ c ∈ names, IsName c) (hne : names ≠ []) :
    pieces (ofNames root names) = (root.toList.map fun _ => "") ++ names := by
  have hparts : Text.pieces '/' (Text.joinChars ['/'] (names.map String.toList)) =
      names.map String.toList := by
    refine Text.pieces_joinChars (by simpa using hne) ?_
    intro p hp
    obtain ⟨d, hd, rfl⟩ := List.mem_map.mp hp
    exact (hnames d hd).noSlash
  unfold pieces Text.split
  rw [toList_ofNames]
  rcases hroot with rfl | rfl
  · show (Text.pieces '/' ('/' :: Text.joinChars _ _)).map String.ofList = _
    rw [Text.pieces_cons_self, hparts]
    simp
  · show (Text.pieces '/' ('/' :: '/' :: Text.joinChars _ _)).map String.ofList = _
    rw [Text.pieces_cons_self, Text.pieces_cons_self, hparts]
    simp

theorem components_ofNames (hroot : IsRoot root) (hnames : ∀ c ∈ names, IsName c) :
    components (ofNames root names) = names := by
  have hkeep : names.filter (fun c => c ≠ "" ∧ c ≠ ".") = names := by
    rw [List.filter_eq_self]
    intro c hc
    simpa using ⟨(hnames c hc).ne_empty, (hnames c hc).ne_dot⟩
  cases names with
  | nil => rcases hroot with rfl | rfl <;> decide
  | cons c rest =>
    have hempty : (root.toList.map fun _ => "").filter (fun c => c ≠ "" ∧ c ≠ ".") = [] := by
      simp
    unfold components
    rw [pieces_ofNames hroot hnames (List.cons_ne_nil c rest), List.filter_append, hkeep, hempty,
      List.nil_append]

theorem rootSlashes_ofNames (hroot : IsRoot root) (hnames : ∀ c ∈ names, IsName c) :
    rootSlashes (ofNames root names) = root := by
  unfold rootSlashes
  rw [toList_ofNames]
  cases names with
  | nil => rcases hroot with rfl | rfl <;> rfl
  | cons c rest =>
    obtain ⟨x, more, hc, hx⟩ := (hnames c List.mem_cons_self).cons
    have hjoined : ∃ tail, Text.joinChars ['/'] ((c :: rest).map String.toList) = x :: tail := by
      cases rest with
      | nil => exact ⟨more, by simpa [Text.joinChars] using hc⟩
      | cons d rest =>
        refine ⟨more ++ ['/'] ++ Text.joinChars ['/'] ((d :: rest).map String.toList), ?_⟩
        rw [List.map_cons, List.map_cons, Text.joinChars_cons_cons, hc]
        rfl
    obtain ⟨tail, htail⟩ := hjoined
    rw [htail]
    rcases hroot with rfl | rfl <;> simp [hx]

theorem isAbsolute_ofNames (hroot : IsRoot root) : isAbsolute (ofNames root names) = true := by
  unfold isAbsolute Text.startsWith
  rw [toList_ofNames]
  rcases hroot with rfl | rfl <;> rfl

theorem push_name {read : List String} {c : String} {absolute : Bool} (hc : IsName c) :
    push absolute read c = c :: read :=
  if_neg hc.ne_dots

theorem normalize_ofNames (hroot : IsRoot root) (hnames : ∀ c ∈ names, IsName c) :
    normalize (ofNames root names) = ofNames root names := by
  have hread : ∀ read, names.foldl (push true) read = names.reverse ++ read := by
    clear hroot
    induction names with
    | nil => exact fun _ => rfl
    | cons c rest ih =>
      intro read
      rw [List.foldl_cons, push_name (hnames c List.mem_cons_self),
        ih fun d hd => hnames d (List.mem_cons_of_mem _ hd)]
      simp
  have hsome : (root ++ Text.join "/" names).isEmpty = false := by
    rcases hroot with rfl | rfl <;> simp
  unfold normalize
  rw [components_ofNames hroot hnames, rootSlashes_ofNames hroot hnames, isAbsolute_ofNames hroot, hread,
    List.append_nil, List.reverse_reverse]
  simp only [hsome]
  rfl

end

/-! ## Normal forms -/

theorem isRoot_rootSlashes {p : String} (h : isAbsolute p = true) : IsRoot (rootSlashes p) := by
  unfold rootSlashes
  split
  · exact .inl rfl
  · exact .inr rfl
  · exact .inl rfl
  · next hnone =>
    unfold isAbsolute Text.startsWith at h
    obtain ⟨rest, hrest⟩ := List.isPrefixOf_iff_prefix.mp h
    exact absurd hrest.symm (hnone rest)

/-- The pieces that name something are names, or lead to the folder above. -/
theorem isName_of_mem_components {p c : String} (h : c ∈ components p) (hdots : c ≠ "..") : IsName c := by
  unfold components at h
  rw [List.mem_filter] at h
  obtain ⟨hpiece, hkept⟩ := h
  simp only [decide_eq_true_eq] at hkept
  refine ⟨hkept.1, hkept.2, hdots, ?_⟩
  unfold pieces Text.split at hpiece
  obtain ⟨l, hl, rfl⟩ := List.mem_map.mp hpiece
  rw [String.toList_ofList]
  exact Text.not_mem_of_mem_pieces hl

/-- A component that is added to names of an absolute path leaves names. -/
theorem push_names {read : List String} {p c : String} (hread : ∀ d ∈ read, IsName d)
    (hc : c ∈ components p) : ∀ d ∈ push true read c, IsName d := by
  unfold push
  by_cases hdots : c = ".."
  · rw [if_pos hdots]
    cases read with
    | nil => simp
    | cons last before =>
      have hlast : last ≠ ".." := (hread last List.mem_cons_self).ne_dots
      simp only [if_neg hlast]
      exact fun d hd => hread d (List.mem_cons_of_mem _ hd)
  · rw [if_neg hdots]
    intro d hd
    rcases List.mem_cons.mp hd with rfl | hd
    · exact isName_of_mem_components hc hdots
    · exact hread d hd

/-- Normalizing an absolute path gives a path in normal form. -/
theorem normal_normalize {p : String} (h : isAbsolute p = true) : Normal (normalize p) := by
  have hfold : ∀ (cs read : List String), (∀ c ∈ cs, c ∈ components p) → (∀ d ∈ read, IsName d) →
      ∀ d ∈ cs.foldl (push true) read, IsName d := by
    intro cs
    induction cs with
    | nil => exact fun read _ hread => hread
    | cons c rest ih =>
      intro read hcs hread
      exact ih _ (fun d hd => hcs d (List.mem_cons_of_mem _ hd))
        (push_names hread (hcs c List.mem_cons_self))
  have hroot := isRoot_rootSlashes h
  refine ⟨rootSlashes p, ((components p).foldl (push true) []).reverse, hroot, ?_, ?_⟩
  · intro c hc
    exact hfold _ [] (fun _ => id) (by simp) c (List.mem_reverse.mp hc)
  · have hsome : (rootSlashes p ++ Text.join "/" ((components p).foldl (push true) []).reverse).isEmpty =
        false := by
      rcases hroot with hroot | hroot <;> simp [hroot]
    unfold normalize
    rw [h]
    simp only [hsome]
    rfl

theorem Normal.normalize_eq {p : String} (h : Normal p) : normalize p = p := by
  obtain ⟨root, names, hroot, hnames, rfl⟩ := h
  exact normalize_ofNames hroot hnames

theorem Normal.isAbsolute {p : String} (h : Normal p) : isAbsolute p = true := by
  obtain ⟨root, names, hroot, -, rfl⟩ := h
  exact isAbsolute_ofNames hroot

/-- An absolute path that normalizing leaves as it is, with one slash in front, is made of names. -/
theorem exists_names_of_normalize_eq {p : String} (h : normalize p = p) (hroot : rootSlashes p = "/") :
    ∃ names, (∀ c ∈ names, IsName c) ∧ p = ofNames "/" names := by
  have habsolute : isAbsolute p = true := by
    unfold rootSlashes at hroot
    unfold isAbsolute Text.startsWith
    cases hp : p.toList with
    | nil => simp [hp] at hroot
    | cons x rest =>
      by_cases hx : x = '/'
      · simp [hx]
      · simp [hp, hx] at hroot
  obtain ⟨root, names, hroot', hnames, hp⟩ := normal_normalize habsolute
  rw [h] at hp
  rw [hp, rootSlashes_ofNames hroot' hnames] at hroot
  exact ⟨names, hnames, hroot ▸ hp⟩

/-- The path of something that may exist: absolute, in normal form, and without a null character. -/
structure Proper (p : String) : Prop where
  normal : Normal p
  noZero : '\x00' ∉ p.toList

/-! ## Entries of folders -/

/-- The name that an entry of a folder may have. -/
structure IsEntry (c : String) : Prop where
  isName : IsName c
  noZero : '\x00' ∉ c.toList

instance (c : String) : Decidable (IsEntry c) :=
  decidable_of_iff (IsName c ∧ '\x00' ∉ c.toList)
    ⟨fun ⟨hname, hzero⟩ => ⟨hname, hzero⟩, fun h => ⟨h.isName, h.noZero⟩⟩

/-- Only the root ends with a slash. -/
theorem endsWith_slash_iff {root : String} {names : List String} (hroot : IsRoot root)
    (hnames : ∀ c ∈ names, IsName c) : Text.endsWith (ofNames root names) "/" = true ↔ names = [] := by
  unfold Text.endsWith
  rw [List.isSuffixOf_iff_suffix, toList_ofNames]
  constructor
  · intro hends
    by_contra hne
    -- the last character is the last one of the last name
    obtain ⟨before, last, rfl⟩ := (List.eq_nil_or_concat' names).resolve_left hne
    have hlast : IsName last := hnames last (by simp)
    obtain ⟨init, x, hx⟩ := (List.eq_nil_or_concat' last.toList).resolve_left
      fun hnil => hlast.ne_empty (String.toList_eq_nil_iff.mp hnil)
    rw [List.map_append, List.map_singleton, Text.joinChars_snoc, hx, ← List.append_assoc, ← List.append_assoc]
      at hends
    obtain ⟨front, hfront⟩ := hends
    have hslash : ['/'] = [x] := (List.append_inj' hfront rfl).2
    cases hslash
    exact hlast.noSlash (hx ▸ by simp)
  · rintro rfl
    rcases hroot with rfl | rfl <;> decide

/-- A path does not get shorter when it goes on by a name. -/
theorem size_le_join {folder name : String} (hname : IsName name) :
    folder.utf8ByteSize ≤ (join folder name).utf8ByteSize := by
  unfold join
  rw [hname.relative, if_neg Bool.false_ne_true]
  split <;> simp only [String.utf8ByteSize_append] <;> omega

theorem size_join {folder name : String} (hname : IsName name) (hsome : folder.isEmpty = false)
    (hends : Text.endsWith folder "/" = false) :
    (join folder name).utf8ByteSize = folder.utf8ByteSize + 1 + name.utf8ByteSize := by
  unfold join
  rw [hname.relative, hsome, hends, if_neg Bool.false_ne_true, Bool.or_false, if_neg Bool.false_ne_true,
    String.utf8ByteSize_append, String.utf8ByteSize_append]
  rfl

/-- The path of an entry of a folder is that of the folder with one more name. -/
theorem join_ofNames {root name : String} {names : List String} (hroot : IsRoot root)
    (hnames : ∀ c ∈ names, IsName c) (hname : IsName name) :
    join (ofNames root names) name = ofNames root (names ++ [name]) := by
  have hsome : (ofNames root names).isEmpty = false := by
    rcases hroot with rfl | rfl <;> simp [ofNames]
  unfold join
  rw [hname.relative, hsome, Bool.false_or, if_neg Bool.false_ne_true, ← String.toList_inj]
  by_cases hnil : names = []
  · subst hnil
    rw [if_pos ((endsWith_slash_iff hroot hnames).mpr rfl)]
    simp [toList_ofNames, Text.joinChars]
  · rw [if_neg fun hends => hnil ((endsWith_slash_iff hroot hnames).mp hends)]
    have hparts : names.map String.toList ≠ [] := by simpa using hnil
    simp [toList_ofNames, Text.joinChars_snoc, hparts]

/-- The path of an entry determines its folder and its name. -/
theorem join_inj {folder other name last : String} (hfolder : Normal folder) (hname : IsName name)
    (hother : Normal other) (hlast : IsName last) (h : join folder name = join other last) :
    folder = other ∧ name = last := by
  obtain ⟨root, names, hroot, hnames, rfl⟩ := hfolder
  obtain ⟨root', names', hroot', hnames', rfl⟩ := hother
  have hall := forall_isName_concat hnames hname
  have hall' := forall_isName_concat hnames' hlast
  rw [join_ofNames hroot hnames hname, join_ofNames hroot' hnames' hlast] at h
  have hslashes := congrArg rootSlashes h
  rw [rootSlashes_ofNames hroot hall, rootSlashes_ofNames hroot' hall'] at hslashes
  have hcomponents := congrArg components h
  rw [components_ofNames hroot hall, components_ofNames hroot' hall'] at hcomponents
  obtain ⟨hsame, hend⟩ := List.append_inj' hcomponents rfl
  exact ⟨by rw [hslashes, hsame], List.singleton_inj.mp hend⟩

theorem foldl_join_ofNames {root : String} {names rest : List String} (hroot : IsRoot root)
    (hnames : ∀ c ∈ names, IsName c) (hrest : ∀ c ∈ rest, IsName c) :
    rest.foldl join (ofNames root names) = ofNames root (names ++ rest) := by
  induction rest generalizing names with
  | nil => rw [List.foldl_nil, List.append_nil]
  | cons c rest ih =>
    have hc := hrest c List.mem_cons_self
    rw [List.foldl_cons, join_ofNames hroot hnames hc,
      ih (forall_isName_concat hnames hc) fun d hd => hrest d (List.mem_cons_of_mem c hd), List.append_assoc,
      List.singleton_append]

theorem noZero_join {folder name : String} (hfolder : '\x00' ∉ folder.toList) (hname : IsEntry name) :
    '\x00' ∉ (Path.join folder name).toList := by
  have hback := hname.noZero
  unfold Path.join
  split
  · exact hback
  · split <;> simp [hfolder, hback]

theorem Proper.join {folder name : String} (hfolder : Proper folder) (hname : IsEntry name) :
    Proper (Path.join folder name) where
  normal := by
    obtain ⟨root, names, hroot, hnames, rfl⟩ := hfolder.normal
    exact ⟨root, names ++ [name], hroot, forall_isName_concat hnames hname.isName,
      join_ofNames hroot hnames hname.isName⟩
  noZero := noZero_join hfolder.noZero hname

/-! ## Folders -/

theorem spelled_snoc (before : List String) (last : String) :
    spelled (before ++ [last]) = (spelled before ++ ['/']) ++ last.toList := by
  simp [spelled]

/-- Without the slashes at its end a path is the text of its names. -/
theorem dropSlashes_ofNames {names : List String} (hnames : ∀ c ∈ names, IsName c) :
    (dropSlashes (ofNames "/" names)).toList = spelled names := by
  unfold dropSlashes
  rw [String.toList_ofList]
  cases names with
  | nil => rfl
  | cons c rest =>
    rw [toList_ofNames_cons]
    obtain ⟨before, last, hsplit⟩ := (List.eq_nil_or_concat' (c :: rest)).resolve_left (by simp)
    rw [hsplit] at hnames ⊢
    have hlast := hnames last (by simp)
    rw [spelled_snoc]
    refine Text.dropEnd_append_of_none ?_ fun x hx => ?_
    · obtain ⟨x, more, hx, -⟩ := hlast.cons
      simp [hx]
    · have hslash : x ≠ '/' := fun heq => hlast.noSlash (heq ▸ hx)
      simpa using hslash

/-- Two names that begin texts in which slashes follow are the same name, if one text begins the other. -/
theorem append_prefix_append_iff {u v X Y : List Char} (hu : '/' ∉ u) (hv : '/' ∉ v)
    (hX : ∃ rest, X = '/' :: rest) (hY : Y = [] ∨ ∃ rest, Y = '/' :: rest) :
    u ++ X <+: v ++ Y ↔ u = v ∧ X <+: Y := by
  induction u generalizing v with
  | nil =>
    cases v with
    | nil => simp
    | cons y v =>
      -- after the shorter name there is a slash, and the longer one has none to match it
      obtain ⟨rest, rfl⟩ := hX
      have hy : '/' ≠ y := fun heq => hv (heq ▸ List.mem_cons_self)
      simp [List.cons_prefix_cons, hy]
  | cons x u ih =>
    rw [List.mem_cons, not_or] at hu
    cases v with
    | nil =>
      rcases hY with rfl | ⟨rest, rfl⟩
      · simp
      · simp [List.cons_prefix_cons, Ne.symm hu.1]
    | cons y v =>
      rw [List.mem_cons, not_or] at hv
      simp only [List.cons_append, List.cons_prefix_cons, List.cons.injEq, ih hu.2 hv.2, and_assoc]

theorem spelled_cases (names : List String) :
    spelled names = [] ∨ ∃ rest, spelled names = '/' :: rest := by
  cases names with
  | nil => exact .inl rfl
  | cons c rest => exact .inr ⟨_, List.flatMap_cons⟩

/-- Text that begins with names and a slash is made of these names and more. -/
theorem spelled_prefix_iff {ns ms : List String} (hns : ∀ c ∈ ns, IsName c) (hms : ∀ c ∈ ms, IsName c) :
    spelled ns ++ ['/'] <+: spelled ms ↔ ns <+: ms ∧ ns ≠ ms := by
  induction ns generalizing ms with
  | nil =>
    cases ms with
    | nil => simp [spelled]
    | cons m ms => simp [spelled, List.cons_prefix_cons]
  | cons n ns ih =>
    cases ms with
    | nil => simp [spelled]
    | cons m ms =>
      have hrest : spelled ns ++ ['/'] <+: spelled ms ↔ ns <+: ms ∧ ns ≠ ms :=
        ih (fun c hc => hns c (List.mem_cons_of_mem _ hc)) fun c hc => hms c (List.mem_cons_of_mem _ hc)
      have hX : ∃ rest, spelled ns ++ ['/'] = '/' :: rest := by
        rcases spelled_cases ns with h | ⟨rest, h⟩
        · exact ⟨[], by rw [h]; rfl⟩
        · exact ⟨rest ++ ['/'], by rw [h]; rfl⟩
      have hhead : spelled (n :: ns) ++ ['/'] <+: spelled (m :: ms) ↔
          n.toList ++ (spelled ns ++ ['/']) <+: m.toList ++ spelled ms := by
        simp [spelled, List.cons_prefix_cons]
      rw [hhead, append_prefix_append_iff (hns n List.mem_cons_self).noSlash
        (hms m List.mem_cons_self).noSlash hX (spelled_cases ms), hrest, String.toList_inj,
        List.cons_prefix_cons]
      constructor
      · rintro ⟨rfl, hprefix, hne⟩
        exact ⟨⟨rfl, hprefix⟩, fun heq => hne (List.cons.inj heq).2⟩
      · rintro ⟨⟨rfl, hprefix⟩, hne⟩
        exact ⟨rfl, hprefix, fun heq => hne (congrArg _ heq)⟩

/-- The path of a file begins with that of a folder and a slash if the folder's names are a proper prefix
of the file's, and only then, unless both are the root. -/
theorem startsWith_folder_iff {ns ms : List String} (hns : ∀ c ∈ ns, IsName c)
    (hms : ∀ c ∈ ms, IsName c) :
    Text.startsWith (ofNames "/" ms) (dropSlashes (ofNames "/" ns) ++ "/") = true ↔
      (ns <+: ms ∧ ns ≠ ms) ∨ (ns = [] ∧ ms = []) := by
  unfold Text.startsWith
  rw [List.isPrefixOf_iff_prefix, String.toList_append, dropSlashes_ofNames hns]
  show spelled ns ++ ['/'] <+: _ ↔ _
  cases ms with
  | nil =>
    cases ns with
    | nil => simp [spelled, toList_ofNames, Text.joinChars]
    | cons n ns =>
      obtain ⟨x, rest, hn, -⟩ := (hns n List.mem_cons_self).cons
      simp [spelled, toList_ofNames, Text.joinChars, List.cons_prefix_cons, hn]
  | cons m ms =>
    rw [toList_ofNames_cons, spelled_prefix_iff hns hms]
    simp

/-! ## Beneath -/

/-- The pieces of the path continue those of the folder, slashes at the end of the folder ignored. -/
def IsBeneath (p folder : String) : Prop :=
  ∃ below, below ≠ [] ∧ pieces p = pieces (dropSlashes folder) ++ below

/-- To begin with a text and a slash is to begin with the pieces of this text. -/
theorem startsWith_slash_iff {p q : String} :
    Text.startsWith p (q ++ "/") = true ↔ ∃ below, below ≠ [] ∧ pieces p = pieces q ++ below := by
  unfold Text.startsWith
  rw [List.isPrefixOf_iff_prefix]
  constructor
  · rintro ⟨rest, hrest⟩
    have hp : p = q ++ "/" ++ String.ofList rest := by
      rw [← String.toList_inj, ← hrest]
      simp
    refine ⟨pieces (String.ofList rest), Text.split_ne_nil '/' _, ?_⟩
    rw [hp]
    exact Text.split_append rfl q _
  · rintro ⟨below, hne, hpieces⟩
    have hbelow : pieces (Text.join "/" below) = below := by
      refine Text.split_join rfl hne fun part hpart => Text.not_mem_of_mem_split (s := p) ?_
      show part ∈ pieces p
      rw [hpieces]
      exact List.mem_append_right _ hpart
    have hp : p = q ++ "/" ++ Text.join "/" below := by
      have hsame : pieces p = pieces (q ++ "/" ++ Text.join "/" below) := by
        rw [hpieces]
        unfold pieces at hbelow ⊢
        rw [Text.split_append rfl, hbelow]
      have hjoined := congrArg (Text.join "/") hsame
      unfold pieces at hjoined
      rwa [Text.join_split rfl, Text.join_split rfl] at hjoined
    rw [hp]
    exact ⟨(Text.join "/" below).toList, String.toList_append.symm⟩

/-- A path is within another if it is the same or lies beneath it, component by component. -/
theorem isWithin_iff {p folder : String} : isWithin p folder = true ↔ p = folder ∨ IsBeneath p folder := by
  unfold isWithin IsBeneath
  rw [Bool.or_eq_true, decide_eq_true_eq, startsWith_slash_iff]

end Path

end Polyscan
