import Mathlib.Data.List.DropRight
import Polyscan.Proofs.StartPoint

/-!
The grammar of start points, and the start points for which `parse` follows it. A path denotes itself. The
path of a file, `#` and method names separated by `;` denote these methods; white space and semicolons at the
end are ignored. The test for names admits a final newline (`isMethodName_iff`), so `parse` departs from the
grammar for a name with a newline that is not the last name.
-/
namespace Polyscan

/-! ## Cutting at the end -/

namespace Text

theorem dropEnd_eq_rdropWhile {α : Type} (p : α → Bool) (l : List α) : dropEnd p l = l.rdropWhile p := rfl

/-- The dropped end satisfies `p`. -/
theorem exists_dropEnd_append {α : Type} (p : α → Bool) (l : List α) :
    ∃ t, l = dropEnd p l ++ t ∧ ∀ x ∈ t, p x = true :=
  ⟨l.rtakeWhile p, List.rdropWhile_append_rtakeWhile.symm, fun _ hx => List.mem_rtakeWhile_imp hx⟩

/-- The rest does not end with an element that satisfies `p`. -/
theorem last_of_dropEnd {α : Type} {p : α → Bool} {l before : List α} {x : α}
    (h : dropEnd p l = before ++ [x]) : p x = false := by
  rw [dropEnd_eq_rdropWhile] at h
  have hlast := List.rdropWhile_last_not p l (by simp [h])
  simpa [h] using hlast

end Text

namespace StartPoint

/-! ## Names -/

/-- A method name: an ASCII letter, followed by ASCII letters, digits and underscores. -/
def IsMethodName (m : String) : Prop :=
  ∃ c rest, m.toList = c :: rest ∧ c.isAlpha = true ∧ ∀ x ∈ rest, x.isAlphanum = true ∨ x = '_'

/-- A method name with a final newline. -/
def IsBroken (m : String) : Prop := ∃ name, IsMethodName name ∧ m = name ++ "\n"

theorem isUpper_iff {c : Char} : c.isUpper = true ↔ 65 ≤ c.toNat ∧ c.toNat ≤ 90 := decide_eq_true_iff

theorem isLower_iff {c : Char} : c.isLower = true ↔ 97 ≤ c.toNat ∧ c.toNat ≤ 122 := by
  have hlower : c.isLower = (decide (97 ≤ c.toNat) && decide (c.toNat ≤ 122)) := rfl
  rw [hlower, Bool.and_eq_true, decide_eq_true_iff, decide_eq_true_iff]

theorem isAsciiLetter_eq_isAlpha (c : Char) : Text.isAsciiLetter c.toNat = c.isAlpha := by
  have halpha : c.isAlpha = (c.isUpper || c.isLower) := rfl
  rw [Bool.eq_iff_iff, halpha, Bool.or_eq_true, isUpper_iff, isLower_iff]
  simp only [Text.isAsciiLetter, Bool.or_eq_true, Bool.and_eq_true, decide_eq_true_eq]

theorem isAsciiDigit_eq_isDigit (c : Char) : Text.isAsciiDigit c.toNat = c.isDigit := rfl

theorem isNameChar_iff {c : Char} : isNameChar c = true ↔ c.isAlphanum = true ∨ c = '_' := by
  have halphanum : c.isAlphanum = (c.isAlpha || c.isDigit) := rfl
  simp only [isNameChar, halphanum, isAsciiLetter_eq_isAlpha, isAsciiDigit_eq_isDigit, Bool.or_eq_true,
    decide_eq_true_eq]

theorem toList_append_newline (name : String) : (name ++ "\n").toList = name.toList ++ ['\n'] :=
  String.toList_append

/-- `isMethodName` accepts the method names, also with a final newline. -/
theorem isMethodName_iff {m : String} : isMethodName m = true ↔ IsMethodName m ∨ IsBroken m := by
  have hchars : ∀ l : List Char, l.all isNameChar = true ↔ ∀ x ∈ l, x.isAlphanum = true ∨ x = '_' := by
    intro l
    simp only [List.all_eq_true, isNameChar_iff]
  unfold isMethodName
  constructor
  · intro h
    split at h
    · cases h
    · next c rest hm =>
      rw [Bool.and_eq_true, Bool.or_eq_true, Bool.and_eq_true, isAsciiLetter_eq_isAlpha, hchars, hchars] at h
      obtain ⟨hc, hrest | ⟨hlast, hrest⟩⟩ := h
      · exact .inl ⟨c, rest, hm, hc, hrest⟩
      · obtain ⟨before, rfl⟩ := List.getLast?_eq_some_iff.mp (by simpa using hlast)
        rw [List.dropLast_concat] at hrest
        refine .inr ⟨String.ofList (c :: before), ⟨c, before, String.toList_ofList, hc, hrest⟩, ?_⟩
        rw [← String.toList_inj, toList_append_newline, String.toList_ofList, hm, List.cons_append]
  · rintro (⟨c, rest, hm, hc, hrest⟩ | ⟨name, ⟨c, rest, hname, hc, hrest⟩, rfl⟩)
    · simp only [hm, isAsciiLetter_eq_isAlpha, hc, (hchars rest).mpr hrest, Bool.true_or, Bool.and_self]
    · have hm : (name ++ "\n").toList = c :: (rest ++ ['\n']) := by
        rw [toList_append_newline, hname, List.cons_append]
      simp only [hm, isAsciiLetter_eq_isAlpha, hc, List.getLast?_concat, List.dropLast_concat,
        (hchars rest).mpr hrest, beq_self_eq_true, Bool.and_self, Bool.or_true]

section

variable {m name : String} {c : Char}

theorem code_of_nameChar (hc : c.isAlphanum = true ∨ c = '_') :
    (48 ≤ c.toNat ∧ c.toNat ≤ 57) ∨ (65 ≤ c.toNat ∧ c.toNat ≤ 90) ∨ c.toNat = 95 ∨
      (97 ≤ c.toNat ∧ c.toNat ≤ 122) := by
  rw [← isNameChar_iff] at hc
  simp only [isNameChar, Text.isAsciiLetter, Text.isAsciiDigit, Bool.or_eq_true, Bool.and_eq_true,
    decide_eq_true_eq] at hc
  rcases hc with (hletter | hdigit) | rfl
  · omega
  · omega
  · exact .inr (.inr (.inl rfl))

theorem IsMethodName.nameChar (h : IsMethodName m) (hc : c ∈ m.toList) : c.isAlphanum = true ∨ c = '_' := by
  obtain ⟨first, rest, hm, hfirst, hrest⟩ := h
  rw [hm] at hc
  rcases List.mem_cons.mp hc with rfl | hc
  · exact .inl (by simp [Char.isAlphanum, hfirst])
  · exact hrest c hc

theorem IsMethodName.ne_nil (h : IsMethodName m) : m.toList ≠ [] := by
  obtain ⟨first, rest, hm, -, -⟩ := h
  simp [hm]

/-- A method name has no character that is dropped at the end of the list. -/
theorem IsMethodName.stays (h : IsMethodName m) (hc : c ∈ m.toList) :
    (Text.isBlank c.toNat || decide (c = ';')) = false := by
  have hcode := code_of_nameChar (h.nameChar hc)
  have hblank : ¬ Text.isBlank c.toNat = true := by
    unfold Text.isBlank
    simp only [Bool.or_eq_true, Bool.and_eq_true, decide_eq_true_eq, beq_iff_eq]
    omega
  have hsemicolon : c ≠ ';' := by
    rintro rfl
    revert hcode
    decide
  simp [hblank, hsemicolon]

/-- A method name has no separator. -/
theorem IsMethodName.not_mem (h : IsMethodName m) (hc : c = '#' ∨ c = ';' ∨ c = '\n') : c ∉ m.toList := by
  intro hmem
  have hcode := code_of_nameChar (h.nameChar hmem)
  rcases hc with rfl | rfl | rfl <;> (revert hcode; decide)

/-- A name that `isMethodName` accepts. -/
def IsTaken (m : String) : Prop := IsMethodName m ∨ IsBroken m

theorem IsTaken.not_mem (h : IsTaken m) (hc : c = '#' ∨ c = ';') : c ∉ m.toList := by
  rcases h with h | ⟨name, hname, rfl⟩
  · exact h.not_mem (hc.imp_right .inl)
  · rw [toList_append_newline, List.mem_append, List.mem_singleton, not_or]
    refine ⟨hname.not_mem (hc.imp_right .inl), ?_⟩
    rcases hc with rfl | rfl <;> decide

theorem IsBroken.not_isMethodName (h : IsBroken m) : ¬ IsMethodName m := by
  obtain ⟨name, -, rfl⟩ := h
  intro hm
  exact hm.not_mem (.inr (.inr rfl)) (by simp)

end

/-! ## Lists of names -/

/-- White space and semicolons. -/
def IsTrail (s : String) : Prop := ∀ c ∈ s.toList, Text.isBlank c.toNat = true ∨ c = ';'

/-- `methodNames` of a list of names, with any white space and semicolons behind it. -/
theorem methodNames_of_names {names : List String} {last trail : String} (hnames : ∀ m ∈ names, IsTaken m)
    (hlast : IsMethodName last) (htrail : IsTrail trail) :
    methodNames (Text.join ";" (names ++ [last]) ++ trail) = names ++ [last] := by
  have hall : ∀ m ∈ names ++ [last], ';' ∉ m.toList := by
    intro m hm
    rcases List.mem_append.mp hm with hm | hm
    · exact (hnames m hm).not_mem (.inr rfl)
    · rw [List.mem_singleton.mp hm]
      exact hlast.not_mem (.inr (.inl rfl))
  have hdrop : dropTrailing (Text.join ";" (names ++ [last]) ++ trail) = Text.join ";" (names ++ [last]) := by
    unfold dropTrailing
    rw [String.toList_append, Text.dropEnd_append_of_all _ _ _ fun c hc => by simpa using htrail c hc]
    unfold Text.join
    rw [String.toList_ofList, List.map_append, List.map_singleton, Text.joinChars_snoc,
      Text.dropEnd_append_of_none hlast.ne_nil fun c hc => hlast.stays hc]
  unfold methodNames
  rw [hdrop, Text.split_join rfl (by simp) hall]

/-- A segment whose names are all accepted is a list of names, and its last name has no final newline. -/
theorem exists_names {segment : String} (h : (methodNames segment).all isMethodName = true) :
    ∃ names last trail, methodNames segment = names ++ [last] ∧ (∀ m ∈ names, IsTaken m) ∧
      IsMethodName last ∧ IsTrail trail ∧ segment = Text.join ";" (names ++ [last]) ++ trail := by
  have htaken : ∀ m ∈ methodNames segment, IsTaken m :=
    fun m hm => isMethodName_iff.mp (List.all_eq_true.mp h m hm)
  obtain ⟨names, last, hparts⟩ := (List.eq_nil_or_concat' (methodNames segment)).resolve_left
    (Text.split_ne_nil _ _)
  rw [hparts] at htaken
  have hjoined : Text.join ";" (names ++ [last]) = dropTrailing segment := by
    rw [← hparts]
    exact Text.join_split rfl _
  obtain ⟨trail, hsegment, htrail⟩ :=
    Text.exists_dropEnd_append (fun c => Text.isBlank c.toNat || decide (c = ';')) segment.toList
  refine ⟨names, last, String.ofList trail, hparts, fun m hm => htaken m (by simp [hm]), ?_, ?_, ?_⟩
  · rcases htaken last (by simp) with hlast | ⟨name, -, rfl⟩
    · exact hlast
    · -- a newline at the very end would have been dropped
      have hends : Text.dropEnd (fun c => Text.isBlank c.toNat || decide (c = ';')) segment.toList =
          ((if names.map String.toList = [] then [] else
            Text.joinChars [';'] (names.map String.toList) ++ [';']) ++ name.toList) ++ ['\n'] := by
        have hchars := congrArg String.toList hjoined
        simp only [Text.join, dropTrailing, String.toList_ofList, List.map_append, List.map_singleton,
          Text.joinChars_snoc, toList_append_newline] at hchars
        rw [← hchars, List.append_assoc]
        rfl
      exact absurd (Text.last_of_dropEnd hends) (by decide)
  · intro c hc
    rw [String.toList_ofList] at hc
    simpa using htrail c hc
  · rw [hjoined, ← String.toList_inj, String.toList_append, String.toList_ofList, dropTrailing,
      String.toList_ofList]
    exact hsegment

/-! ## Start points -/

/-- The points of a start point: a path denotes itself; the path of a file, `#` and a list of names denote
these methods of the file. The last name is a method name, and the others satisfy `allowed`. -/
inductive Denotes (h : Host) (allowed : String → Prop) : String → List PathPoint → Prop
  | path {point : String} (hsign : '#' ∉ point.toList) (hthere : h.exists? (h.absolute point) = true) :
      Denotes h allowed point [{ file := h.absolute point }]
  | methods {file trail last : String} {names : List String} (hsign : '#' ∉ file.toList)
      (hthere : h.exists? (h.absolute file) = true) (hfile : h.isFolder (h.absolute file) = false)
      (hnames : ∀ m ∈ names, allowed m) (hlast : IsMethodName last) (htrail : IsTrail trail) :
      Denotes h allowed (file ++ "#" ++ (Text.join ";" (names ++ [last]) ++ trail))
        ((names ++ [last]).map fun m => { file := h.absolute file, method := some m })

section

variable {h : Host} {point path file : String} {ps : List PathPoint}

theorem existing_eq_ok_iff :
    Workspace.existing h point = .ok path ↔
      ¬ Path.Unaskable point ∧ h.exists? (h.absolute point) = true ∧ path = h.absolute point := by
  by_cases hask : Path.Unaskable point
  · simp [existing_of_unaskable hask, hask]
  · rw [existing_of_not_unaskable hask]
    by_cases hthere : h.exists? (h.absolute point) = true
    · simp [hthere, hask, eq_comm]
    · simp [hthere]

theorem methodFile_eq_ok_iff :
    methodFile h point file = .ok path ↔
      ¬ Path.Unaskable file ∧ h.exists? (h.absolute file) = true ∧ h.isFolder (h.absolute file) = false ∧
        path = h.absolute file := by
  by_cases hask : Path.Unaskable file
  · simp [methodFile_of_unaskable hask, hask]
  · rw [methodFile_of_not_unaskable hask]
    by_cases hthere : h.exists? (h.absolute file) = true
    · by_cases hfolder : h.isFolder (h.absolute file) = true
      · simp [hthere, hfolder]
      · simp [hthere, hfolder, hask, eq_comm]
    · simp [hthere]

theorem parse_path (hsign : '#' ∉ point.toList) :
    parse h point = (Workspace.existing h point).bind fun path => .ok [{ file := path }] := by
  unfold parse
  rw [Text.split_of_not_mem hsign]
  rfl

theorem parse_methods {segment : String} (hfile : '#' ∉ file.toList) (hsegment : '#' ∉ segment.toList) :
    parse h (file ++ "#" ++ segment) =
      (methodFile h (file ++ "#" ++ segment) file).bind fun path =>
        if (methodNames segment).all isMethodName then
          .ok ((methodNames segment).map fun m => { file := path, method := some m })
        else .error (.invalidInput (.malformedStartPoint (file ++ "#" ++ segment))) := by
  unfold parse
  rw [Text.split_append rfl, Text.split_of_not_mem hfile, Text.split_of_not_mem hsegment]
  rfl

/-- `parse` accepts at most one `#`. -/
theorem cut_of_parse (hps : parse h point = .ok ps) :
    '#' ∉ point.toList ∨
      ∃ file segment, '#' ∉ file.toList ∧ '#' ∉ segment.toList ∧ point = file ++ "#" ++ segment := by
  have hjoin : Text.join "#" (Text.split '#' point) = point := Text.join_split rfl point
  have hparts : ∀ part ∈ Text.split '#' point, '#' ∉ part.toList :=
    fun part hpart => Text.not_mem_of_mem_split hpart
  unfold parse at hps
  split at hps
  · next part hsplit =>
    rw [hsplit] at hjoin hparts
    have hpart : part = point := by rw [← hjoin]; simp [Text.join, Text.joinChars]
    exact .inl (hpart ▸ hparts part (by simp))
  · next file segment hsplit =>
    rw [hsplit] at hjoin hparts
    refine .inr ⟨file, segment, hparts file (by simp), hparts segment (by simp), ?_⟩
    rw [← hjoin]
    simp [Text.join, Text.joinChars, ← String.toList_inj]
  · cases hps

/-- What `parse` returns is denoted by the start point, if a name may have a final newline. -/
theorem denotes_of_parse (hps : parse h point = .ok ps) : Denotes h IsTaken point ps := by
  rcases cut_of_parse hps with hsign | ⟨file, segment, hsign, hsegment, rfl⟩
  · rw [parse_path hsign] at hps
    cases hpath : Workspace.existing h point with
    | error f => simp [hpath, Except.bind] at hps
    | ok path =>
      obtain ⟨-, hthere, habsolute⟩ := existing_eq_ok_iff.mp hpath
      rw [hpath, habsolute] at hps
      exact Except.ok.inj hps ▸ .path hsign hthere
  · rw [parse_methods hsign hsegment] at hps
    cases hpath : methodFile h (file ++ "#" ++ segment) file with
    | error f => simp [hpath, Except.bind] at hps
    | ok path =>
      obtain ⟨-, hthere, hfile, habsolute⟩ := methodFile_eq_ok_iff.mp hpath
      rw [hpath, habsolute] at hps
      by_cases hall : (methodNames segment).all isMethodName = true
      · obtain ⟨names, last, trail, hparts, hnames, hlast, htrail, hnamed⟩ := exists_names hall
        simp only [Except.bind, if_pos hall] at hps
        rw [← Except.ok.inj hps, hparts, hnamed]
        exact .methods hsign hthere hfile hnames hlast htrail
      · simp [Except.bind, hall] at hps

/-- `parse` returns what the start point denotes, if `~` names no unknown user in it. -/
theorem parse_of_denotes (hask : ¬ Unaskable point) (hps : Denotes h IsTaken point ps) :
    parse h point = .ok ps := by
  cases hps with
  | path hsign hthere =>
    have hpath : ¬ Path.Unaskable point := by
      refine fun hpath => hask ⟨point, ?_, hpath⟩
      rw [pathOf?, Text.split_of_not_mem hsign]
    rw [parse_path hsign, existing_eq_ok_iff.mpr ⟨hpath, hthere, rfl⟩]
    rfl
  | @methods file trail last names hsign hthere hfile hnames hlast htrail =>
    have hparts := methodNames_of_names hnames hlast htrail
    have htaken : ∀ m ∈ names ++ [last], IsTaken m := by
      intro m hm
      rcases List.mem_append.mp hm with hm | hm
      · exact hnames m hm
      · exact .inl (List.mem_singleton.mp hm ▸ hlast)
    have hall : (names ++ [last]).all isMethodName = true :=
      List.all_eq_true.mpr fun m hm => isMethodName_iff.mpr (htaken m hm)
    have hsegment : '#' ∉ (Text.join ";" (names ++ [last]) ++ trail).toList := by
      rw [String.toList_append, List.mem_append, not_or]
      constructor
      · intro hmem
        rcases Text.mem_join hmem with hmid | ⟨m, hm, hmem⟩
        · revert hmid
          decide
        · exact (htaken m hm).not_mem (.inl rfl) hmem
      · intro hmem
        have hcounts := htrail _ hmem
        revert hcounts
        decide
    have hpath : ¬ Path.Unaskable file := by
      refine fun hpath => hask ⟨file, ?_, hpath⟩
      rw [pathOf?, Text.split_append rfl, Text.split_of_not_mem hsign, Text.split_of_not_mem hsegment]
      rfl
    rw [parse_methods hsign hsegment, methodFile_eq_ok_iff.mpr ⟨hpath, hthere, hfile, rfl⟩]
    simp only [Except.bind, hparts, if_pos hall]

theorem Denotes.mono {allowed allowed' : String → Prop} (hps : Denotes h allowed point ps)
    (hallowed : ∀ m, allowed m → allowed' m) : Denotes h allowed' point ps := by
  cases hps with
  | path hsign hthere => exact .path hsign hthere
  | methods hsign hthere hfile hnames hlast htrail =>
    exact .methods hsign hthere hfile (fun m hm => hallowed m (hnames m hm)) hlast htrail

theorem Denotes.names {allowed : String → Prop} (hps : Denotes h allowed point ps) :
    ∀ p ∈ ps, ∀ m, p.method = some m → allowed m ∨ IsMethodName m := by
  cases hps with
  | path hsign hthere =>
    intro p hp m hm
    rw [List.mem_singleton.mp hp] at hm
    cases hm
  | methods hsign hthere hfile hnames hlast htrail =>
    intro p hp m hm
    obtain ⟨name, hname, rfl⟩ := List.mem_map.mp hp
    cases hm
    rcases List.mem_append.mp hname with hname | hname
    · exact .inl (hnames m hname)
    · exact .inr (List.mem_singleton.mp hname ▸ hlast)

/-- All methods of the points have method names. -/
def Named (ps : List PathPoint) : Prop := ∀ p ∈ ps, ∀ m, p.method = some m → IsMethodName m

theorem Denotes.of_named {allowed : String → Prop} (hps : Denotes h allowed point ps) (hnamed : Named ps) :
    Denotes h IsMethodName point ps := by
  cases hps with
  | path hsign hthere => exact .path hsign hthere
  | methods hsign hthere hfile hnames hlast htrail =>
    refine .methods hsign hthere hfile (fun m hm => ?_) hlast htrail
    exact hnamed _ (List.mem_map_of_mem (List.mem_append_left _ hm)) m rfl

/-- The outcome `r` follows the grammar: it returns exactly the points that the start point denotes, it
refuses with the kind `invalidInput`, and the methods it returns have method names. -/
structure Grammatical (h : Host) (point : String) (r : Except Fault (List PathPoint)) : Prop where
  accepts : ∀ ps, r = .ok ps ↔ Denotes h IsMethodName point ps
  refuses : ∀ f, r = .error f → f.kind = .invalidInput
  names : ∀ ps, r = .ok ps → Named ps

/-- The start point denotes a method whose name has a final newline. -/
def Slips (h : Host) (point : String) : Prop :=
  ∃ ps, Denotes h IsTaken point ps ∧ ∃ p ∈ ps, ∃ m, p.method = some m ∧ IsBroken m

/-- `parse` follows the grammar for exactly those start points that are neither `Unaskable` (the user after
`~` has a null character, so the lookup of the home folder raises) nor `Slips` (`$` admits the final newline
of a name that is not the last). -/
theorem parse_grammatical_iff (h : Host) (point : String) :
    Grammatical h point (parse h point) ↔ ¬ Unaskable point ∧ ¬ Slips h point := by
  constructor
  · intro hgrammatical
    have hask : ¬ Unaskable point := by
      intro hunask
      rcases parsed_parse h point with ⟨-, herror⟩ | ⟨hask, -⟩
      · cases hgrammatical.refuses _ herror
      · exact hask hunask
    refine ⟨hask, ?_⟩
    rintro ⟨ps, hps, p, hp, m, hm, hbroken⟩
    exact hbroken.not_isMethodName (hgrammatical.names ps (parse_of_denotes hask hps) p hp m hm)
  · rintro ⟨hask, hslips⟩
    have haccepts : ∀ ps, parse h point = .ok ps ↔ Denotes h IsMethodName point ps := by
      intro ps
      constructor
      · intro hps
        have hdenotes := denotes_of_parse hps
        refine hdenotes.of_named fun p hp m hm => ?_
        rcases hdenotes.names p hp m hm with (hname | hbroken) | hname
        · exact hname
        · exact absurd ⟨ps, hdenotes, p, hp, m, hm, hbroken⟩ hslips
        · exact hname
      · intro hps
        exact parse_of_denotes hask (hps.mono fun m hm => .inl hm)
    refine ⟨haccepts, ?_, ?_⟩
    · intro f hf
      rcases parse_error hf with ⟨hunask, -⟩ | ⟨-, hkind⟩
      · exact absurd hunask hask
      · exact hkind
    · intro ps hps p hp m hm
      exact or_self_iff.mp (((haccepts ps).mp hps).names p hp m hm)

end

example : parse (.withMain []) "main.py#run;stop_2 ;\n" =
    .ok [⟨"/main.py", some "run"⟩, ⟨"/main.py", some "stop_2"⟩] := rfl

/-- The newline in front of `;` becomes a part of the name. -/
theorem parse_takes_newline :
    parse (.withMain []) "main.py#run\n;stop" =
        .ok [⟨"/main.py", some "run\n"⟩, ⟨"/main.py", some "stop"⟩] ∧
      ¬ IsMethodName "run\n" ∧
      ¬ Grammatical (.withMain []) "main.py#run\n;stop" (parse (.withMain []) "main.py#run\n;stop") := by
  have hparse : parse (.withMain []) "main.py#run\n;stop" =
      .ok [⟨"/main.py", some "run\n"⟩, ⟨"/main.py", some "stop"⟩] := rfl
  have hname : ¬ IsMethodName "run\n" := fun hname => hname.not_mem (.inr (.inr rfl)) (by decide)
  refine ⟨hparse, hname, fun hgrammatical => hname ?_⟩
  exact hgrammatical.names _ hparse _ List.mem_cons_self "run\n" rfl

end StartPoint

end Polyscan
