import Polyscan.Proofs.Host

/-!
Spellings of one path. `absolute` is the same for paths that differ by slashes at the end or doubled ones, by
dots, by a name followed by a double dot, by `~` for a home folder, or by the working directory.
-/
namespace Polyscan

namespace Path

/-- The text is empty or begins with a slash. -/
def GoesOn (s : String) : Prop := s = "" ∨ ∃ t, s = "/" ++ t

/-- The path has a character other than slashes. -/
def IsFirm (p : String) : Prop := ∃ c ∈ p.toList, c ≠ '/'

section

variable {p s t name : String}

theorem IsFirm.ne_nil (hp : IsFirm p) : p.toList ≠ [] := by
  obtain ⟨c, hc, -⟩ := hp
  exact List.ne_nil_of_mem hc

/-! ## What is behind a path -/

theorem goesOn_slash (s : String) : GoesOn ("/" ++ s) := .inr ⟨s, rfl⟩

theorem components_append_slash (s t : String) : components (s ++ "/" ++ t) = components s ++ components t := by
  unfold components pieces
  rw [Text.split_append rfl, List.filter_append]

theorem components_slash (s : String) : components ("/" ++ s) = components s := by
  have hempty : components "" = [] := by decide
  have happend := components_append_slash "" s
  rwa [hempty, List.nil_append, String.empty_append] at happend

theorem GoesOn.components_append (hs : GoesOn s) (p : String) :
    components (p ++ s) = components p ++ components s := by
  obtain rfl | ⟨t, rfl⟩ := hs
  · have hempty : components "" = [] := by decide
    rw [String.append_empty, hempty, List.append_nil]
  · rw [← String.append_assoc, components_append_slash, components_slash]

theorem components_dot (hs : GoesOn s) : components ("/." ++ s) = components s := by
  have hdot : components "/." = [] := by decide
  rw [hs.components_append, hdot, List.nil_append]

theorem components_name (hname : IsName name) : components name = [name] := by
  have hnames : ∀ c ∈ [name], IsName c := List.forall_mem_singleton.mpr hname
  have hone : ofNames "/" [name] = "/" ++ name := by
    unfold ofNames Text.join
    simp [Text.joinChars]
  rw [← components_slash, ← hone, components_ofNames (.inl rfl) hnames]

/-- A name followed by a double dot has no effect. -/
theorem foldl_push_back (hname : IsName name) (hs : GoesOn s) (read : List String) :
    (components ("/" ++ name ++ "/.." ++ s)).foldl (push true) read = (components s).foldl (push true) read := by
  have hback : components ("/" ++ name ++ "/..") = [name, ".."] := by
    have hdots : components ".." = [".."] := by decide
    have happend := components_append_slash ("/" ++ name) ".."
    rwa [String.append_assoc, components_slash, components_name hname, hdots] at happend
  rw [hs.components_append, hback, List.foldl_append, List.foldl_cons, List.foldl_cons, List.foldl_nil,
    push_name hname, push, if_pos rfl]
  simp only [if_neg hname.ne_dots]

/-! ## What is read off the front -/

theorem isAbsolute_append (hp : p.toList ≠ []) (s : String) : isAbsolute (p ++ s) = isAbsolute p := by
  unfold isAbsolute Text.startsWith
  obtain ⟨c, rest, hc⟩ := List.exists_cons_of_ne_nil hp
  rw [String.toList_append, hc]
  rfl

theorem rootSlashes_append (hp : IsFirm p) (s : String) : rootSlashes (p ++ s) = rootSlashes p := by
  obtain ⟨c, hc, hslash⟩ := hp
  unfold rootSlashes
  rw [String.toList_append]
  generalize p.toList = l at hc
  match l, hc with
  | [x], hc =>
    obtain rfl := List.mem_singleton.mp hc
    simp [hslash]
  | [x, y], hc =>
    by_cases hx : x = '/'
    · subst hx
      have hy : y ≠ '/' := by
        rintro rfl
        simp [hslash] at hc
      simp [hy]
    · simp [hx]
  | x :: y :: z :: rest, _ =>
    by_cases hx : x = '/'
    · by_cases hy : y = '/'
      · by_cases hz : z = '/' <;> simp [hx, hy, hz]
      · simp [hx, hy]
    · simp [hx]

/-- Continuations whose components have the same effect have the same normal form. -/
theorem normalize_append_congr (hp : IsFirm p) (habsolute : isAbsolute p = true) (hs : GoesOn s) (ht : GoesOn t)
    (hread : ∀ read, (components s).foldl (push true) read = (components t).foldl (push true) read) :
    normalize (p ++ s) = normalize (p ++ t) := by
  unfold normalize
  rw [rootSlashes_append hp, rootSlashes_append hp, isAbsolute_append hp.ne_nil, isAbsolute_append hp.ne_nil,
    habsolute, hs.components_append, ht.components_append, List.foldl_append, List.foldl_append, hread]

theorem join_append (hp : p.toList ≠ []) (folder : String) (s : String) :
    join folder (p ++ s) = join folder p ++ s := by
  unfold join
  rw [isAbsolute_append hp]
  split
  · rfl
  · split <;> simp only [String.append_assoc]

theorem IsFirm.join (hp : IsFirm p) (folder : String) : IsFirm (join folder p) := by
  obtain ⟨c, hc, hslash⟩ := hp
  refine ⟨c, ?_, hslash⟩
  unfold Path.join
  split
  · exact hc
  · split <;> simp [hc]

/-! ## Home folders -/

section

variable {home : String} {users : List (String × String)} {rest : List Char}

/-- The home folder of a user; the empty name stands for the current user. -/
def homeFolder? (home : String) (users : List (String × String)) (name : String) : Option String :=
  if name.isEmpty then some home else (users.find? (·.1 = name)).map (·.2)

/-- The user name behind `~`, up to the first slash. -/
def ownerName (rest : List Char) : String := String.ofList (rest.takeWhile (· ≠ '/'))

theorem expandHome_of_head (hp : p.toList.head? ≠ some '~') : expandHome home users p = p := by
  unfold expandHome
  cases hlist : p.toList with
  | nil => rfl
  | cons c rest =>
    have hc : c ≠ '~' := by
      rintro rfl
      exact hp (by rw [hlist]; rfl)
    simp [hc]

theorem expandHome_of_none (hp : p.toList = '~' :: rest) (hnone : homeFolder? home users (ownerName rest) = none) :
    expandHome home users p = p := by
  unfold homeFolder? ownerName at hnone
  unfold expandHome
  rw [hp]
  simp only [hnone]

theorem expandHome_of_some {folder : String} (hp : p.toList = '~' :: rest)
    (hsome : homeFolder? home users (ownerName rest) = some folder) :
    expandHome home users p =
      if (dropSlashes folder ++ String.ofList (rest.dropWhile (· ≠ '/'))).isEmpty then "/"
      else dropSlashes folder ++ String.ofList (rest.dropWhile (· ≠ '/')) := by
  unfold homeFolder? ownerName at hsome
  unfold expandHome
  rw [hp]
  simp only [hsome]

theorem takeWhile_append_slash (rest more : List Char) :
    (rest ++ '/' :: more).takeWhile (· ≠ '/') = rest.takeWhile (· ≠ '/') := by
  rw [List.takeWhile_append]
  split
  · next hall =>
    rw [List.takeWhile_cons_of_neg (by simp), List.append_nil]
    exact ((List.takeWhile_prefix _).eq_of_length hall).symm
  · rfl

theorem dropWhile_append_slash (rest more : List Char) :
    (rest ++ '/' :: more).dropWhile (· ≠ '/') = rest.dropWhile (· ≠ '/') ++ '/' :: more := by
  rw [List.dropWhile_append]
  split
  · next hnone => rw [List.isEmpty_iff.mp hnone, List.dropWhile_cons_of_neg (by simp), List.nil_append]
  · rfl

/-- `expandHome` depends on the text in front of the first slash. -/
theorem expandHome_append (hp : IsFirm (expandHome home users p)) (hs : GoesOn s) :
    expandHome home users (p ++ s) = expandHome home users p ++ s := by
  obtain rfl | ⟨t, rfl⟩ := hs
  · rw [String.append_empty, String.append_empty]
  by_cases hhead : p.toList.head? = some '~'
  · obtain ⟨rest, hrest⟩ := List.head?_eq_some_iff.mp hhead
    have hmore : (p ++ ("/" ++ t)).toList = '~' :: (rest ++ '/' :: t.toList) := by
      rw [String.toList_append, hrest]
      simp
    have howner : ownerName (rest ++ '/' :: t.toList) = ownerName rest := by
      rw [ownerName, takeWhile_append_slash]
      rfl
    cases hfolder : homeFolder? home users (ownerName rest) with
    | none => rw [expandHome_of_none hrest hfolder, expandHome_of_none hmore (by rw [howner, hfolder])]
    | some folder =>
      rw [expandHome_of_some hrest hfolder] at hp ⊢
      rw [expandHome_of_some hmore (by rw [howner, hfolder]), dropWhile_append_slash]
      split at hp
      · -- a home folder that is the root would leave slashes only
        obtain ⟨c, hc, hslash⟩ := hp
        exact absurd (List.mem_singleton.mp hc) hslash
      · next hsome =>
        rw [if_neg hsome]
        have hjoined : dropSlashes folder ++ String.ofList (rest.dropWhile (· ≠ '/') ++ '/' :: t.toList) =
            dropSlashes folder ++ String.ofList (rest.dropWhile (· ≠ '/')) ++ ("/" ++ t) := by
          rw [← String.toList_inj]
          simp
        rw [hjoined, if_neg]
        simp
  · rw [expandHome_of_head hhead]
    refine expandHome_of_head ?_
    rw [expandHome_of_head hhead] at hp
    rwa [String.toList_append, List.head?_append_of_ne_nil _ hp.ne_nil]

end

end

end Path

namespace Host

/-- The path with `~` replaced by a home folder. -/
def expanded (h : Host) (p : String) : String := Path.expandHome h.home h.users p

/-- Spellings of one path. The first has one more slash, a dot, or a name followed by a double dot; or the
second has `~` or the working directory written out. -/
inductive Respells (h : Host) : String → String → Prop
  | slash {p s : String} (hp : Path.IsFirm (h.expanded p)) (hs : Path.GoesOn s) :
      Respells h (p ++ "/" ++ s) (p ++ s)
  | dot {p s : String} (hp : Path.IsFirm (h.expanded p)) (hs : Path.GoesOn s) :
      Respells h (p ++ "/." ++ s) (p ++ s)
  | back {p s name : String} (hp : Path.IsFirm (h.expanded p)) (hname : Path.IsName name)
      (hs : Path.GoesOn s) : Respells h (p ++ ("/" ++ name ++ "/..") ++ s) (p ++ s)
  | home {p : String} (hp : (h.expanded p).toList.head? ≠ some '~') : Respells h p (h.expanded p)
  | relative {p : String} (hp : p.toList.head? ≠ some '~') : Respells h p (Path.join h.cwdPath p)
  | symm {p q : String} (hpq : Respells h p q) : Respells h q p
  | trans {p q r : String} (hpq : Respells h p q) (hqr : Respells h q r) : Respells h p r

variable {h : Host} {p q s t : String}

theorem absolute_append_congr (hp : Path.IsFirm (h.expanded p)) (hs : Path.GoesOn s) (ht : Path.GoesOn t)
    (hread : ∀ read, (Path.components s).foldl (Path.push true) read =
      (Path.components t).foldl (Path.push true) read) : h.absolute (p ++ s) = h.absolute (p ++ t) := by
  unfold absolute
  rw [Path.expandHome_append hp hs, Path.expandHome_append hp ht]
  have hne : (Path.expandHome h.home h.users p).toList ≠ [] := hp.ne_nil
  rw [Path.join_append hne, Path.join_append hne]
  exact Path.normalize_append_congr (Path.IsFirm.join hp _) (h.isAbsolute_join _) hs ht hread

theorem absolute_of_head (hp : p.toList.head? ≠ some '~') :
    h.absolute p = Path.normalize (Path.join h.cwdPath p) := by
  rw [absolute, Path.expandHome_of_head hp]

/-- Spellings of one path have the same absolute form. -/
theorem Respells.absolute_eq (hpq : Respells h p q) : h.absolute p = h.absolute q := by
  induction hpq with
  | slash hp hs =>
    rw [String.append_assoc]
    refine absolute_append_congr hp (Path.goesOn_slash _) hs fun read => ?_
    rw [Path.components_slash]
  | @dot p s hp hs =>
    have hdot : "/." ++ s = "/" ++ ("." ++ s) := by
      rw [← String.append_assoc]
      rfl
    rw [String.append_assoc]
    refine absolute_append_congr hp (.inr ⟨_, hdot⟩) hs fun read => ?_
    rw [Path.components_dot hs]
  | @back p s name hp hname hs =>
    have hname' : "/" ++ name ++ "/.." ++ s = "/" ++ (name ++ "/.." ++ s) := by
      simp only [String.append_assoc]
    rw [String.append_assoc]
    exact absolute_append_congr hp (.inr ⟨_, hname'⟩) hs (Path.foldl_push_back hname hs)
  | home hp =>
    rw [absolute_of_head hp]
    rfl
  | @relative p hp =>
    have hjoined := h.isAbsolute_join p
    have hhead : (Path.join h.cwdPath p).toList.head? ≠ some '~' := by
      unfold Path.isAbsolute Text.startsWith at hjoined
      obtain ⟨rest, hrest⟩ := List.isPrefixOf_iff_prefix.mp hjoined
      rw [← hrest]
      simp
    rw [absolute_of_head hp, absolute_of_head hhead]
    have htwice : Path.join h.cwdPath (Path.join h.cwdPath p) = Path.join h.cwdPath p := if_pos hjoined
    rw [htwice]
  | symm _ ih => exact ih.symm
  | trans _ _ ih ih' => exact ih.trans ih'

end Host

end Polyscan
