import Polyscan.Proofs.Finding.Refusal
import Polyscan.Proofs.Host
import Polyscan.Proofs.Run.Acceptance
import Polyscan.StartPoint

/-!
`RunOptions.resolve`. Start points are parsed in order, and the first failure ends the call; then every file
must be an input or lie beneath a folder among the inputs, path component by path component.
-/
namespace Polyscan

/-- An absolute path in normal form with one slash in front. -/
def Path.Plain (p : String) : Prop := Path.normalize p = p ∧ Path.rootSlashes p = "/"

theorem Path.Plain.exists_names {p : String} (h : Path.Plain p) :
    ∃ names, (∀ c ∈ names, Path.IsName c) ∧ p = Path.ofNames "/" names :=
  Path.exists_names_of_normalize_eq h.1 h.2

namespace StartPoint

/-! ## Inside and outside -/

/-- The file is an input, or lies beneath an existing folder among the inputs. -/
def Inside (h : Host) (inputs : List String) (file : String) : Prop :=
  file ∈ inputs ∨ ∃ folder ∈ inputs, h.isFolder folder = true ∧
    Path.components folder <+: Path.components file ∧ Path.components folder ≠ Path.components file

/-- The test on texts agrees with `Inside` on plain paths. -/
theorem isInside_eq_true_iff {h : Host} {inputs : List String} {file : String}
    (hinputs : ∀ i ∈ inputs, Path.Plain i) (hfile : Path.Plain file) :
    isInside h inputs file = true ↔ Inside h inputs file := by
  obtain ⟨ms, hms, rfl⟩ := hfile.exists_names
  have hbeneath : ∀ folder ∈ inputs,
      Text.startsWith (Path.ofNames "/" ms) (Path.dropSlashes folder ++ "/") = true ↔
        (Path.components folder <+: Path.components (Path.ofNames "/" ms) ∧
            Path.components folder ≠ Path.components (Path.ofNames "/" ms)) ∨
          folder = "/" ∧ Path.ofNames "/" ms = "/" := by
    intro folder hfolder
    obtain ⟨ns, hns, rfl⟩ := (hinputs folder hfolder).exists_names
    have hroot : ∀ names, (∀ c ∈ names, Path.IsName c) → (Path.ofNames "/" names = "/" ↔ names = []) := by
      intro names hnames
      constructor
      · intro heq
        rw [← Path.components_ofNames (.inl rfl) hnames, heq]
        rfl
      · rintro rfl
        rfl
    rw [Path.startsWith_folder_iff hns hms, Path.components_ofNames (.inl rfl) hns,
      Path.components_ofNames (.inl rfl) hms, hroot ns hns, hroot ms hms]
  unfold isInside Inside
  simp only [List.any_eq_true, Bool.or_eq_true, Bool.and_eq_true, decide_eq_true_eq]
  constructor
  · intro hany
    obtain ⟨folder, hfolder, hin⟩ := hany
    rcases hin with rfl | ⟨hisFolder, hstarts⟩
    · exact .inl hfolder
    · rcases (hbeneath folder hfolder).mp hstarts with hproper | ⟨hroot, hroot'⟩
      · exact .inr ⟨folder, hfolder, hisFolder, hproper⟩
      · -- the text of the root is its own slash, but then the root is an input
        rw [hroot', ← hroot]
        exact .inl hfolder
  · intro hinside
    rcases hinside with hinput | ⟨folder, hfolder, hisFolder, hproper⟩
    · exact ⟨_, hinput, .inl rfl⟩
    · exact ⟨folder, hfolder, .inr ⟨hisFolder, (hbeneath folder hfolder).mpr (.inl hproper)⟩⟩

theorem checkInside_eq_ok_iff {h : Host} {inputs : List String} {ps : List PathPoint} :
    checkInside h inputs ps = .ok () ↔ ∀ p ∈ ps, isInside h inputs p.file = true := by
  induction ps with
  | nil => simp [checkInside]
  | cons p rest ih =>
    unfold checkInside
    by_cases hp : isInside h inputs p.file = true
    · rw [if_pos hp, ih, List.forall_mem_cons]
      simp [hp]
    · rw [if_neg hp]
      simp [hp]

theorem checkInside_error {h : Host} {inputs : List String} {ps : List PathPoint} {f : Fault}
    (hf : checkInside h inputs ps = .error f) : f.kind = .invalidInput := by
  induction ps with
  | nil => cases hf
  | cons p rest ih =>
    unfold checkInside at hf
    split at hf
    · exact ih hf
    · cases hf
      rfl

/-! ## Parsing -/

/-- The path part of a start point, if it has at most one `#`. -/
def pathOf? (point : String) : Option String :=
  match Text.split '#' point with
  | [_] => some point
  | [file, _] => some file
  | _ => none

/-- The path part is `Path.Unaskable`, so that resolving it raises a value error. -/
def Unaskable (point : String) : Prop := ∃ path, pathOf? point = some path ∧ Path.Unaskable path

/-- `parse` returns points. -/
def Parses (h : Host) (point : String) : Prop := ∃ ps, parse h point = .ok ps

variable {h : Host} {point path : String} {ps : List PathPoint} {f : Fault}

/-- The outcome of resolving a path that must exist: its absolute form, or bad input, unless the path is
unaskable. -/
def Located (h : Host) (path : String) (r : Except Fault String) : Prop :=
  (Path.Unaskable path ∧ r = .error Host.nullByte) ∨
    (¬ Path.Unaskable path ∧
      ((∃ f, r = .error f ∧ f.kind = .invalidInput) ∨ r = .ok (h.absolute path)))

theorem existing_of_unaskable (hpath : Path.Unaskable path) :
    Workspace.existing h path = .error Host.nullByte := by
  unfold Workspace.existing
  rw [Host.resolve_of_unaskable hpath]
  rfl

theorem existing_of_not_unaskable (hpath : ¬ Path.Unaskable path) :
    Workspace.existing h path =
      if h.exists? (h.absolute path) then .ok (h.absolute path)
      else .error (.invalidInput (.missingPath (h.absolute path))) := by
  unfold Workspace.existing
  rw [Host.resolve_of_not_unaskable hpath]
  simp only [bind, Except.bind, pure, Except.pure, throw, throwThe, MonadExceptOf.throw]

theorem located_existing (h : Host) (path : String) : Located h path (Workspace.existing h path) := by
  by_cases hpath : Path.Unaskable path
  · exact .inl ⟨hpath, existing_of_unaskable hpath⟩
  · rw [existing_of_not_unaskable hpath]
    split
    · exact .inr ⟨hpath, .inr rfl⟩
    · exact .inr ⟨hpath, .inl ⟨_, rfl, rfl⟩⟩

theorem methodFile_of_unaskable (hpath : Path.Unaskable path) :
    methodFile h point path = .error Host.nullByte := by
  unfold methodFile
  rw [Host.resolve_of_unaskable hpath]
  rfl

theorem methodFile_of_not_unaskable (hpath : ¬ Path.Unaskable path) :
    methodFile h point path =
      if !h.exists? (h.absolute path) then
        .error (.invalidInput (.startPointMissing point (h.absolute path)))
      else if h.isFolder (h.absolute path) then
        .error (.invalidInput (.startPointFolder point (h.absolute path)))
      else .ok (h.absolute path) := by
  unfold methodFile
  rw [Host.resolve_of_not_unaskable hpath]
  simp only [bind, Except.bind, pure, Except.pure, throw, throwThe, MonadExceptOf.throw]

theorem located_methodFile (h : Host) (point path : String) :
    Located h path (methodFile h point path) := by
  by_cases hpath : Path.Unaskable path
  · exact .inl ⟨hpath, methodFile_of_unaskable hpath⟩
  · rw [methodFile_of_not_unaskable hpath]
    split
    · exact .inr ⟨hpath, .inl ⟨_, rfl, rfl⟩⟩
    · split
      · exact .inr ⟨hpath, .inl ⟨_, rfl, rfl⟩⟩
      · exact .inr ⟨hpath, .inr rfl⟩

/-- The outcome of a start point: points of one file, or a failure. -/
def Parsed (h : Host) (point : String) (r : Except Fault (List PathPoint)) : Prop :=
  (Unaskable point ∧ r = .error Host.nullByte) ∨
    (¬ Unaskable point ∧
      ((∃ f, r = .error f ∧ f.kind = .invalidInput) ∨
        ∃ path ps, r = .ok ps ∧ ∀ p ∈ ps, p.file = h.absolute path))

/-- The outcome of a start point is decided by its path and, if this exists, by the names. -/
theorem Located.parsed {r : Except Fault String} {g : String → Except Fault (List PathPoint)}
    (hr : Located h path r) (hpath : pathOf? point = some path)
    (hg : (∃ f, g (h.absolute path) = .error f ∧ f.kind = .invalidInput) ∨
      ∃ ps, g (h.absolute path) = .ok ps ∧ ∀ p ∈ ps, p.file = h.absolute path) :
    Parsed h point (r.bind g) := by
  have hunaskable : Unaskable point ↔ Path.Unaskable path := by
    unfold Unaskable
    rw [hpath]
    simp
  unfold Parsed
  rw [hunaskable]
  rcases hr with ⟨hunask, rfl⟩ | ⟨hask, ⟨f, rfl, hf⟩ | rfl⟩
  · exact .inl ⟨hunask, rfl⟩
  · exact .inr ⟨hask, .inl ⟨f, rfl, hf⟩⟩
  · refine .inr ⟨hask, ?_⟩
    rcases hg with hrefused | ⟨ps, hps, hfile⟩
    · exact .inl hrefused
    · exact .inr ⟨path, ps, hps, hfile⟩

theorem parsed_parse (h : Host) (point : String) : Parsed h point (parse h point) := by
  unfold parse
  split
  · next part hsplit =>
    refine (located_existing h point).parsed (by rw [pathOf?, hsplit]) (.inr ⟨_, rfl, ?_⟩)
    intro p hp
    rw [List.mem_singleton.mp hp]
  · next file methods hsplit =>
    refine (located_methodFile h point file).parsed (by rw [pathOf?, hsplit]) ?_
    simp only
    split
    · refine .inr ⟨_, rfl, fun p hp => ?_⟩
      obtain ⟨m, -, hm⟩ := List.mem_map.mp hp
      rw [← hm]
    · exact .inl ⟨_, rfl, rfl⟩
  · next hsplit hsplit' =>
    refine .inr ⟨?_, .inl ⟨_, rfl, rfl⟩⟩
    rintro ⟨path, hpath, -⟩
    unfold pathOf? at hpath
    split at hpath
    · next part heq => exact hsplit part heq
    · next file methods heq => exact hsplit' file methods heq
    · cases hpath

theorem normal_of_parse (hps : parse h point = .ok ps) : ∀ p ∈ ps, Path.Normal p.file := by
  rcases parsed_parse h point with ⟨-, herror⟩ | ⟨-, ⟨f, herror, -⟩ | ⟨path, ps', hok, hfile⟩⟩
  · rw [herror] at hps
    cases hps
  · rw [herror] at hps
    cases hps
  · rw [hok] at hps
    cases hps
    intro p hp
    rw [hfile p hp]
    exact h.normal_absolute path

theorem parse_error (hf : parse h point = .error f) :
    (Unaskable point ∧ f = Host.nullByte) ∨ (¬ Unaskable point ∧ f.kind = .invalidInput) := by
  rcases parsed_parse h point with ⟨hunask, herror⟩ | ⟨hask, ⟨g, herror, hg⟩ | ⟨path, ps', hok, -⟩⟩
  · rw [herror] at hf
    cases hf
    exact .inl ⟨hunask, rfl⟩
  · rw [herror] at hf
    cases hf
    exact .inr ⟨hask, hg⟩
  · rw [hok] at hf
    cases hf

/-- `parseAll` returns if and only if every start point parses, and returns the points in order. -/
theorem parseAll_eq_ok_iff {points : List String} :
    parseAll h points = .ok ps ↔
      ∃ pss, List.Forall₂ (fun point ps => parse h point = .ok ps) points pss ∧ ps = pss.flatten := by
  induction points generalizing ps with
  | nil => simp [parseAll, eq_comm]
  | cons point rest ih =>
    unfold parseAll
    simp only [bind, Except.bind, List.forall₂_cons_left_iff]
    cases hpoint : parse h point with
    | error f => simp
    | ok qs =>
      cases hrest : parseAll h rest with
      | error f =>
        have hnone : ∀ pss, ¬ List.Forall₂ (fun point ps => parse h point = .ok ps) rest pss := by
          intro pss hpss
          rw [ih.mpr ⟨pss, hpss, rfl⟩] at hrest
          cases hrest
        simp [hnone]
      | ok more =>
        obtain ⟨pss, hpss, rfl⟩ := ih.mp hrest
        constructor
        · intro heq
          cases heq
          exact ⟨qs :: pss, ⟨qs, pss, rfl, hpss, rfl⟩, rfl⟩
        · rintro ⟨_, ⟨qs', pss', hqs, hpss', rfl⟩, rfl⟩
          have hmore : pss.flatten = pss'.flatten :=
            Except.ok.inj (hrest.symm.trans (ih.mpr ⟨pss', hpss', rfl⟩))
          rw [List.flatten_cons, ← hmore, Except.ok.inj hqs]
          rfl

/-- `parseAll` fails at the first start point that does not parse. -/
theorem parseAll_error {points : List String} (hf : parseAll h points = .error f) :
    ∃ point, FirstBad (Parses h) points point ∧
      ((Unaskable point ∧ f = Host.nullByte) ∨ (¬ Unaskable point ∧ f.kind = .invalidInput)) := by
  induction points with
  | nil => cases hf
  | cons point rest ih =>
    unfold parseAll at hf
    cases hpoint : parse h point with
    | error g =>
      rw [hpoint] at hf
      cases hf
      refine ⟨point, ⟨[], rest, rfl, by simp, ?_⟩, parse_error hpoint⟩
      rintro ⟨ps, hps⟩
      rw [hpoint] at hps
      cases hps
    | ok qs =>
      cases hrest : parseAll h rest with
      | ok more =>
        rw [hpoint, hrest] at hf
        cases hf
      | error g =>
        rw [hpoint, hrest] at hf
        cases hf
        obtain ⟨bad, hfirst, hreason⟩ := ih hrest
        exact ⟨bad, hfirst.cons ⟨qs, hpoint⟩, hreason⟩

end StartPoint

/-! ## Options -/

namespace RunOptions

/-- The options are for the given workspace. -/
theorem workspace_of_resolve {h : Host} {w : Workspace} {points : List String} {o : RunOptions}
    (ho : resolve h w points = .ok o) : o.workspace = w := by
  unfold resolve at ho
  split at ho
  · cases ho
  · split at ho
    · cases ho
      rfl
    · cases hparsed : StartPoint.parseAll h points with
      | error f =>
        rw [hparsed] at ho
        cases ho
      | ok ps =>
        simp only [hparsed, bind, Except.bind] at ho
        cases hinside : StartPoint.checkInside h w.inputs ps with
        | error f =>
          rw [hinside] at ho
          cases ho
        | ok u =>
          rw [hinside] at ho
          cases ho
          rfl

/-- The first start point that does not parse is unaskable. -/
def Unaskable (h : Host) (w : Workspace) (points : List String) : Prop :=
  w.inputs ≠ [] ∧ ∃ point, FirstBad (StartPoint.Parses h) points point ∧ StartPoint.Unaskable point

/-- There are inputs, every start point parses, and all points lie inside. -/
def Admitted (h : Host) (w : Workspace) (points : List String) : Prop :=
  w.inputs ≠ [] ∧
    ∃ pss, List.Forall₂ (fun point ps => StartPoint.parse h point = .ok ps) points pss ∧
      ∀ p ∈ pss.flatten, StartPoint.Inside h w.inputs p.file

/-- The options hold the points of the start points in order, or no list if there are no start points. -/
def Holds (h : Host) (w : Workspace) (points : List String) (o : RunOptions) : Prop :=
  o.workspace = w ∧ (points = [] → o.startPoints = none) ∧
    (points ≠ [] →
      ∃ pss, List.Forall₂ (fun point ps => StartPoint.parse h point = .ok ps) points pss ∧
        o.startPoints = some pss.flatten)

/-- The outcome of `resolve`: the options if they are admitted, and else bad input, unless the first failing
start point is unaskable. -/
structure Decided (h : Host) (w : Workspace) (points : List String)
    (outcome : Except Fault RunOptions) : Prop where
  passes : (∃ o, outcome = .ok o) ↔ Admitted h w points
  options : ∀ o, outcome = .ok o → Holds h w points o
  refusal : ∀ f, outcome = .error f →
    Unaskable h w points ∧ f = Host.nullByte ∨ ¬ Unaskable h w points ∧ f.kind = .invalidInput

/-- `resolve` parses the start points and then tests that they lie inside. -/
theorem resolve_of_points {h : Host} {w : Workspace} {points : List String} (hw : w.inputs ≠ [])
    (hpoints : points ≠ []) :
    resolve h w points =
      match StartPoint.parseAll h points with
      | .error f => .error f
      | .ok ps =>
        match StartPoint.checkInside h w.inputs ps with
        | .error f => .error f
        | .ok () => .ok { workspace := w, startPoints := some ps } := by
  unfold resolve
  rw [if_neg (by simpa using hw), if_neg (by simpa using hpoints)]
  cases StartPoint.parseAll h points with
  | error f => rfl
  | ok ps =>
    show (StartPoint.checkInside h w.inputs ps).bind _ = _
    cases hinside : StartPoint.checkInside h w.inputs ps with
    | error f => simp only [hinside]; rfl
    | ok u => simp only [hinside]; rfl

variable {h : Host} {w : Workspace} {points : List String}

theorem decided_ok {o : RunOptions} (hadmitted : Admitted h w points) (ho : Holds h w points o) :
    Decided h w points (.ok o) where
  passes := ⟨fun _ => hadmitted, fun _ => ⟨o, rfl⟩⟩
  options o' ho' := Except.ok.inj ho' ▸ ho
  refusal f hf := by cases hf

theorem decided_error {f : Fault} (hnot : ¬ Admitted h w points)
    (hreason : Unaskable h w points ∧ f = Host.nullByte ∨
      ¬ Unaskable h w points ∧ f.kind = .invalidInput) : Decided h w points (.error f) where
  passes := by
    refine ⟨fun ho => ?_, fun hadmitted => absurd hadmitted hnot⟩
    obtain ⟨o, ho⟩ := ho
    cases ho
  options o ho := by cases ho
  refusal g hg := by
    cases hg
    exact hreason

/-- A start point that does not parse decides the outcome. -/
theorem decided_of_parseAll_error (hw : w.inputs ≠ []) {f : Fault}
    (hparse : StartPoint.parseAll h points = .error f) : Decided h w points (.error f) := by
  obtain ⟨point, hfirst, hreason⟩ := StartPoint.parseAll_error hparse
  have hunaskable : Unaskable h w points ↔ StartPoint.Unaskable point := by
    constructor
    · intro hunask
      obtain ⟨-, point', hfirst', hunask⟩ := hunask
      rwa [hfirst.unique hfirst']
    · exact fun hunask => ⟨hw, point, hfirst, hunask⟩
  refine decided_error ?_ (by rwa [hunaskable])
  intro hadmitted
  obtain ⟨-, pss, hpss, -⟩ := hadmitted
  rw [StartPoint.parseAll_eq_ok_iff.mpr ⟨pss, hpss, rfl⟩] at hparse
  cases hparse

/-- If all start points parse, the outcome depends on whether they lie inside. -/
theorem decided_of_parsed (hw : w.inputs ≠ []) (hpoints : points ≠ [])
    (hinputs : ∀ i ∈ w.inputs, Path.Plain i) {pss : List (List PathPoint)}
    (hpss : List.Forall₂ (fun point ps => StartPoint.parse h point = .ok ps) points pss)
    (hplain : ∀ p ∈ pss.flatten, Path.Plain p.file) :
    Decided h w points
      (match StartPoint.checkInside h w.inputs pss.flatten with
        | .error f => .error f
        | .ok () => .ok { workspace := w, startPoints := some pss.flatten }) := by
  have hinside : StartPoint.checkInside h w.inputs pss.flatten = .ok () ↔
      ∀ p ∈ pss.flatten, StartPoint.Inside h w.inputs p.file := by
    rw [StartPoint.checkInside_eq_ok_iff]
    exact forall₂_congr fun p hp => StartPoint.isInside_eq_true_iff hinputs (hplain p hp)
  cases hcheck : StartPoint.checkInside h w.inputs pss.flatten with
  | ok u =>
    exact decided_ok ⟨hw, pss, hpss, hinside.mp hcheck⟩
      ⟨rfl, fun hnil => absurd hnil hpoints, fun _ => ⟨pss, hpss, rfl⟩⟩
  | error f =>
    refine decided_error ?_ (.inr ⟨?_, StartPoint.checkInside_error hcheck⟩)
    · intro hadmitted
      -- parsing is deterministic, and one of the points lies outside
      obtain ⟨-, pss', hpss', hin⟩ := hadmitted
      have hparse := StartPoint.parseAll_eq_ok_iff.mpr ⟨pss, hpss, rfl⟩
      have hparse' := StartPoint.parseAll_eq_ok_iff.mpr ⟨pss', hpss', rfl⟩
      rw [← Except.ok.inj (hparse.symm.trans hparse'), ← hinside, hcheck] at hin
      cases hin
    · intro hunask
      obtain ⟨-, point, ⟨before, after, hsplit, -, hbad⟩, -⟩ := hunask
      obtain ⟨qs, -, hparsed⟩ := exists_partner hpss (x := point) (by simp [hsplit])
      exact hbad ⟨qs, hparsed⟩

/-- `resolve` of inputs and start points whose paths have one slash in front. -/
theorem decided_resolve (hinputs : ∀ i ∈ w.inputs, Path.Plain i)
    (hfiles : ∀ point ∈ points, ∀ ps, StartPoint.parse h point = .ok ps →
      ∀ p ∈ ps, Path.rootSlashes p.file = "/") : Decided h w points (resolve h w points) := by
  by_cases hw : w.inputs = []
  · have hempty : resolve h w points = .error (.invalidInput .emptyWorkspace) := by
      unfold resolve
      rw [hw]
      rfl
    rw [hempty]
    exact decided_error (fun hadmitted => hadmitted.1 hw) (.inr ⟨fun hunask => hunask.1 hw, rfl⟩)
  by_cases hpoints : points = []
  · subst hpoints
    have hnone : resolve h w [] = .ok { workspace := w } := by
      unfold resolve
      rw [if_neg (by simpa using hw)]
      rfl
    rw [hnone]
    exact decided_ok ⟨hw, [], .nil, by simp⟩ ⟨rfl, fun _ => rfl, fun hne => absurd rfl hne⟩
  rw [resolve_of_points hw hpoints]
  cases hparse : StartPoint.parseAll h points with
  | error f => exact decided_of_parseAll_error hw hparse
  | ok ps =>
    obtain ⟨pss, hpss, rfl⟩ := StartPoint.parseAll_eq_ok_iff.mp hparse
    refine decided_of_parsed hw hpoints hinputs hpss ?_
    intro p hp
    obtain ⟨qs, hqs, hp⟩ := List.mem_flatten.mp hp
    obtain ⟨point, hpoint, hparsed⟩ := exists_partner hpss.flip hqs
    exact ⟨(StartPoint.normal_of_parse hparsed p hp).normalize_eq, hfiles point hpoint qs hparsed p hp⟩

end RunOptions

end Polyscan
