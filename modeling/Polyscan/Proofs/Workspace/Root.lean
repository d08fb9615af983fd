import Polyscan.Proofs.StartPoint
import Polyscan.Proofs.Workspace

/-!
The root of a workspace. Its components are a prefix of those of all inputs, and the longest one that is a
folder; so it is the deepest folder that holds all inputs, and depends on the inputs as a set only.
-/
namespace Polyscan

/-! ## Paths that begin alike -/

namespace Path

/-- The common prefixes of two lists are the prefixes of the longest one. -/
theorem prefix_commonPrefix_iff {ms ns names : List String} :
    names <+: commonPrefix ms ns ↔ names <+: ms ∧ names <+: ns := by
  fun_induction commonPrefix ms ns generalizing names with
  | case1 m ms ns ih =>
    cases names with
    | nil => simp
    | cons name names =>
      simp only [List.cons_prefix_cons, ih]
      constructor
      · rintro ⟨hname, hms, hns⟩
        exact ⟨⟨hname, hms⟩, hname, hns⟩
      · rintro ⟨⟨hname, hms⟩, -, hns⟩
        exact ⟨hname, hms, hns⟩
  | case2 m ms n ns hne =>
    cases names with
    | nil => simp
    | cons name names =>
      -- the heads differ, so only the empty list is a prefix of both
      simp only [List.cons_prefix_cons, List.prefix_nil, List.cons_ne_nil, false_iff]
      rintro ⟨⟨rfl, -⟩, rfl, -⟩
      exact hne rfl
  | case3 ms ns hnone =>
    cases names with
    | nil => simp
    | cons name names =>
      cases ms with
      | nil => simp
      | cons m ms =>
        cases ns with
        | nil => simp
        | cons n ns => exact absurd rfl (hnone m ms n ns rfl)

theorem prefix_foldl_commonPrefix_iff {folders shared names : List String} :
    names <+: folders.foldl (fun shared q => commonPrefix shared (components q)) shared ↔
      names <+: shared ∧ ∀ f ∈ folders, names <+: components f := by
  induction folders generalizing shared with
  | nil => simp
  | cons folder rest ih =>
    rw [List.foldl_cons, ih, prefix_commonPrefix_iff, and_assoc, List.forall_mem_cons]

theorem plain_ofNames {names : List String} (hnames : ∀ c ∈ names, IsName c) : Plain (ofNames "/" names) :=
  ⟨normalize_ofNames (.inl rfl) hnames, rootSlashes_ofNames (.inl rfl) hnames⟩

theorem Plain.isName {p : String} (hp : Plain p) : ∀ c ∈ components p, IsName c := by
  obtain ⟨names, hnames, rfl⟩ := hp.exists_names
  rwa [components_ofNames (.inl rfl) hnames]

/-- A path from the root is determined by its components. -/
theorem Plain.eq_ofNames {p : String} (hp : Plain p) : p = ofNames "/" (components p) := by
  obtain ⟨names, hnames, rfl⟩ := hp.exists_names
  rw [components_ofNames (.inl rfl) hnames]

/-- The components of the common folder are the longest common prefix. -/
theorem common?_of_plain {folders : List String} (hne : folders ≠ []) (hfolders : ∀ f ∈ folders, Plain f) :
    ∃ r, common? folders = some r ∧ Plain r ∧
      ∀ names, names <+: components r ↔ ∀ f ∈ folders, names <+: components f := by
  cases folders with
  | nil => exact absurd rfl hne
  | cons first rest =>
    have habsolute : ∀ f ∈ first :: rest, isAbsolute f = true := by
      intro f hf
      rw [(hfolders f hf).eq_ofNames]
      exact isAbsolute_ofNames (.inl rfl)
    obtain ⟨hfirst, hrest⟩ := List.forall_mem_cons.mp habsolute
    have hmixed : (rest.any fun q => isAbsolute q ≠ isAbsolute first) = false := by
      rw [List.any_eq_false]
      intro q hq
      simp [hrest q hq, hfirst]
    generalize hshared : rest.foldl (fun shared q => commonPrefix shared (components q)) (components first) = shared
    have hbegins : ∀ names, names <+: shared ↔ ∀ f ∈ first :: rest, names <+: components f := by
      intro names
      rw [← hshared, prefix_foldl_commonPrefix_iff, List.forall_mem_cons]
    have hnames : ∀ c ∈ shared, IsName c := by
      have hsub := (hbegins shared).mp List.prefix_rfl first List.mem_cons_self
      exact fun c hc => (hfolders first List.mem_cons_self).isName c (hsub.subset hc)
    refine ⟨ofNames "/" shared, ?_, plain_ofNames hnames, ?_⟩
    · rw [common?, hmixed, if_neg Bool.false_ne_true, hfirst, if_pos rfl]
      simp only [hshared]
      rfl
    · rwa [components_ofNames (.inl rfl) hnames]

/-- The parent of a path from the root is the path without its last name. -/
theorem parent_ofNames {names : List String} {last : String} (hnames : ∀ c ∈ names, IsName c)
    (hlast : IsName last) : parent (ofNames "/" (names ++ [last])) = ofNames "/" names := by
  have hspelled : (ofNames "/" (names ++ [last])).toList = spelled names ++ ['/'] ++ last.toList := by
    rw [← spelled_snoc]
    cases names <;> exact toList_ofNames_cons ..
  have hhead : Text.dropEnd (· ≠ '/') (ofNames "/" (names ++ [last])).toList = spelled names ++ ['/'] := by
    rw [hspelled, Text.dropEnd_append_of_all, Text.dropEnd_append_of_none (List.cons_ne_nil _ _)]
    · simp
    · intro c hc
      simpa using fun heq : c = '/' => hlast.noSlash (heq ▸ hc)
  unfold parent
  simp only [hhead]
  -- the slash before the last name stays if there is nothing else
  cases names with
  | nil => rfl
  | cons name rest =>
    obtain ⟨x, more, hx, hslash⟩ := (hnames name List.mem_cons_self).cons
    have hsome : (spelled (name :: rest) ++ ['/']).all (· = '/') = false := by
      simp [spelled, hx, hslash]
    have hends := dropSlashes_ofNames hnames
    unfold dropSlashes at hends
    rw [String.toList_ofList, toList_ofNames_cons] at hends
    rw [hsome, if_neg Bool.false_ne_true, Text.dropEnd_append_of_all, hends, ← toList_ofNames_cons,
      String.ofList_toList]
    simp

end Path

/-! ## Folders of inputs -/

namespace Workspace

variable {h : Host} {inputs others : List String} {input folder file : String}

/-- A folder holds an input: its components are a prefix of those of the input, and a proper one if the input
is no folder. -/
structure Holds (h : Host) (folder input : String) : Prop where
  begins : Path.components folder <+: Path.components input
  apart : h.isFolder input = false → Path.components folder ≠ Path.components input

theorem isFolder_root (hroot : h.files.isFolder = true) : h.isFolder "/" = true := by
  obtain ⟨files, cwd, home, users⟩ := h
  cases files with
  | folder entries => rfl
  | file content => cases hroot
  | link target => cases hroot

/-- `folderOf` of an input from the root is the deepest folder that holds the input. -/
theorem folderOf_of_plain (hroot : h.files.isFolder = true) (hinput : Path.Plain input) :
    Path.Plain (folderOf h input) ∧
      ∀ folder, Holds h folder input ↔ Path.components folder <+: Path.components (folderOf h input) := by
  unfold folderOf
  split
  · next hfolder =>
    refine ⟨hinput, fun folder => ⟨Holds.begins, fun hbegins => ⟨hbegins, fun hnone => ?_⟩⟩⟩
    rw [hfolder] at hnone
    cases hnone
  · next hnone =>
    have hnone := Bool.eq_false_iff.mpr hnone
    obtain ⟨names, hnames, rfl⟩ := hinput.exists_names
    rcases List.eq_nil_or_concat' names with rfl | ⟨before, last, rfl⟩
    · -- without names it is the root, which is a folder
      rw [Path.ofNames_nil, isFolder_root hroot] at hnone
      cases hnone
    · obtain ⟨hbefore, hlast⟩ := List.forall_mem_append.mp hnames
      rw [Path.parent_ofNames hbefore (hlast last (List.mem_singleton_self last))]
      refine ⟨Path.plain_ofNames hbefore, fun folder => ?_⟩
      rw [Path.components_ofNames (.inl rfl) hbefore]
      constructor
      · rintro ⟨hbegins, hapart⟩
        rw [Path.components_ofNames (.inl rfl) hnames] at hbegins hapart
        exact (List.prefix_concat_iff.mp hbegins).resolve_left (hapart hnone)
      · intro hbegins
        refine ⟨?_, fun _ => ?_⟩
        all_goals rw [Path.components_ofNames (.inl rfl) hnames]
        · exact hbegins.trans (List.prefix_append before [last])
        · intro hsame
          rw [hsame] at hbegins
          have hle := hbegins.length_le
          rw [List.length_append, List.length_singleton] at hle
          omega

/-! ## Files -/

/-- The path of a file among the entries of a folder extends that of the folder by names. -/
theorem exists_names_of_mem_filesAmong {isFolder : String → Bool} {path : String}
    {entries : List (String × Node)} (hnamed : Node.AllWellNamed entries) :
    ∀ file ∈ Node.filesAmong isFolder path entries,
      ∃ names, names ≠ [] ∧ (∀ c ∈ names, Path.IsName c) ∧ file = names.foldl Path.join path := by
  fun_induction Node.filesAmong isFolder path entries with
  | case1 path => exact List.forall_mem_nil _
  | case2 path name sub rest ihsub ihrest =>
    obtain ⟨hname, hsub, hrest⟩ := hnamed
    refine List.forall_mem_append.mpr ⟨fun file hfile => ?_, ihrest hrest⟩
    split at hfile
    · cases hfile
    · obtain ⟨names, -, hnames, rfl⟩ := ihsub hsub file hfile
      exact ⟨name :: names, List.cons_ne_nil name names, List.forall_mem_cons.mpr ⟨hname.isName, hnames⟩, rfl⟩
  | case3 path name target rest ih =>
    obtain ⟨hname, -, hrest⟩ := hnamed
    refine List.forall_mem_append.mpr ⟨fun file hfile => ?_, ih hrest⟩
    split at hfile
    · cases hfile
    · rw [List.mem_singleton.mp hfile]
      exact ⟨[name], List.cons_ne_nil name [], List.forall_mem_singleton.mpr hname.isName, rfl⟩
  | case4 path name content rest ih =>
    obtain ⟨hname, -, hrest⟩ := hnamed
    exact List.forall_mem_cons.mpr
      ⟨⟨[name], List.cons_ne_nil name [], List.forall_mem_singleton.mpr hname.isName, rfl⟩, ih hrest⟩

/-- A folder that holds an input is above all files of the input. -/
theorem Holds.above (hnamed : h.files.WellNamed) (hinput : Path.Plain input) (hholds : Holds h folder input)
    (hfile : file ∈ filesOf h input) :
    Path.components folder <+: Path.components file ∧ Path.components folder ≠ Path.components file := by
  unfold filesOf at hfile
  split at hfile
  · cases hfile
  · next here hreal =>
    split at hfile
    · next entries hentries =>
      obtain ⟨names, hne, hnames, rfl⟩ :=
        exists_names_of_mem_filesAmong (Node.wellNamed_of_at? hnamed hentries) file hfile
      rw [hinput.eq_ofNames, Path.foldl_join_ofNames (.inl rfl) hinput.isName hnames,
        Path.components_ofNames (.inl rfl) (List.forall_mem_append.mpr ⟨hinput.isName, hnames⟩)]
      refine ⟨hholds.begins.trans (List.prefix_append _ names), fun hsame => ?_⟩
      have hle := hholds.begins.length_le
      rw [hsame, List.length_append] at hle
      have hpos := List.length_pos_iff.mpr hne
      omega
    · next content hcontent =>
      rw [List.mem_singleton.mp hfile]
      refine ⟨hholds.begins, hholds.apart ?_⟩
      rw [Host.isFolder, Host.node?, hreal, Option.bind_eq_bind, Option.bind_some, hcontent]
      rfl
    · cases hfile

/-! ## The deepest folder -/

/-- The folder holds all inputs, every other folder that does so is above it, and it is above all files. -/
structure DeepestFolder (h : Host) (inputs : List String) (r : String) : Prop where
  plain : Path.Plain r
  holds : ∀ i ∈ inputs, Holds h r i
  deepest : ∀ folder, (∀ i ∈ inputs, Holds h folder i) → Path.components folder <+: Path.components r
  files : ∀ file ∈ expand h inputs,
    Path.components r <+: Path.components file ∧ Path.components r ≠ Path.components file

theorem DeepestFolder.unique {r r' : String} (hr : DeepestFolder h inputs r) (hr' : DeepestFolder h others r')
    (hsame : ∀ i, i ∈ others ↔ i ∈ inputs) : r = r' := by
  have hbegins := hr'.deepest r fun i hi => hr.holds i ((hsame i).mp hi)
  have hback := hr.deepest r' fun i hi => hr'.holds i ((hsame i).mpr hi)
  rw [hr.plain.eq_ofNames, hr'.plain.eq_ofNames, hbegins.eq_of_length_le hback.length_le]

theorem exists_root (hroot : h.files.isFolder = true) (hnamed : h.files.WellNamed) (hne : inputs ≠ [])
    (hinputs : ∀ i ∈ inputs, Path.Plain i) : ∃ r, root h inputs = .ok (some r) ∧ DeepestFolder h inputs r := by
  have hfolders : ∀ f ∈ inputs.map (folderOf h), Path.Plain f := by
    intro f hf
    obtain ⟨i, hi, rfl⟩ := List.mem_map.mp hf
    exact (folderOf_of_plain hroot (hinputs i hi)).1
  obtain ⟨r, hr, hplain, hbegins⟩ := Path.common?_of_plain (by simpa using hne) hfolders
  have hholds : ∀ folder, (∀ i ∈ inputs, Holds h folder i) ↔ Path.components folder <+: Path.components r := by
    intro folder
    rw [hbegins, List.forall_mem_map]
    exact forall₂_congr fun i hi => (folderOf_of_plain hroot (hinputs i hi)).2 folder
  have hall := (hholds r).mpr List.prefix_rfl
  refine ⟨r, ?_, hplain, hall, fun folder => (hholds folder).mp, fun file hfile => ?_⟩
  · rw [root, hr, if_neg (by simpa using hne)]
  · obtain ⟨i, hi, hfile⟩ := List.mem_flatMap.mp (mem_of_mem_ascending hfile)
    exact (hall i hi).above hnamed (hinputs i hi) hfile

/-- `root` of inputs is the deepest folder that holds all of them, whatever their order and repetitions. -/
theorem root_deepest (hroot : h.files.isFolder = true) (hnamed : h.files.WellNamed) (hne : inputs ≠ [])
    (hinputs : ∀ i ∈ inputs, Path.Plain i) :
    ∃ r, root h inputs = .ok (some r) ∧ DeepestFolder h inputs r ∧
      ∀ others, (∀ i, i ∈ others ↔ i ∈ inputs) → root h others = .ok (some r) := by
  obtain ⟨r, hr, hdeepest⟩ := exists_root hroot hnamed hne hinputs
  refine ⟨r, hr, hdeepest, fun others hsame => ?_⟩
  obtain ⟨i, hi⟩ := List.exists_mem_of_ne_nil inputs hne
  have hother : others ≠ [] := List.ne_nil_of_mem ((hsame i).mpr hi)
  obtain ⟨r', hr', hdeepest'⟩ := exists_root hroot hnamed hother fun i hi => hinputs i ((hsame i).mp hi)
  rw [hr', hdeepest.unique hdeepest' hsame]

/-- A machine with two folders, where the name of one is a prefix of the name of the other. -/
def siblings : Host :=
  ⟨.folder [("srv", .folder [("app", .folder [("a.py", .file (.bytes []))]),
    ("app2", .folder [("b.py", .file (.bytes []))])])], [], "/home/user", []⟩

/-- The common prefix of two names is no folder. -/
theorem root_deepest_siblings :
    root siblings ["/srv/app2/b.py", "/srv/app"] = .ok (some "/srv") ∧
      DeepestFolder siblings ["/srv/app2/b.py", "/srv/app"] "/srv" ∧
      root siblings ["/srv/app", "/srv/app2/b.py", "/srv/app"] = .ok (some "/srv") := by
  have hnamed : siblings.files.WellNamed :=
    ⟨by decide, ⟨by decide, ⟨by decide, trivial, trivial⟩, by decide, ⟨by decide, trivial, trivial⟩, trivial⟩,
      trivial⟩
  have hinputs : ∀ i ∈ ["/srv/app2/b.py", "/srv/app"], Path.Plain i := by
    simp only [List.forall_mem_cons]
    exact ⟨⟨by decide, by decide⟩, ⟨by decide, by decide⟩, List.forall_mem_nil _⟩
  obtain ⟨r, hr, hdeepest, hothers⟩ := root_deepest (h := siblings) rfl hnamed (List.cons_ne_nil _ _) hinputs
  have hsrv : root siblings ["/srv/app2/b.py", "/srv/app"] = .ok (some "/srv") := rfl
  cases hr.symm.trans hsrv
  refine ⟨hr, hdeepest, hothers _ fun i => ?_⟩
  simp only [List.mem_cons, List.not_mem_nil, or_false]
  tauto

end Workspace

end Polyscan
