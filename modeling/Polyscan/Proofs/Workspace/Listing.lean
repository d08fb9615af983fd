import Mathlib.Data.List.Sort
import Polyscan.Proofs.BuiltIn
import Polyscan.Proofs.Expansion
import Polyscan.Proofs.Workspace.Inputs

/-!
The list of files of a workspace. It is in ascending order and depends on the inputs as a set only: neither
their order matters, nor repetitions, nor inputs within one another. The files of a union of inputs are the
union of the files.
-/
namespace Polyscan

/-! ## Texts in order -/

theorem ascending_eq_of_mem_iff {one : List String} (hone : one.Pairwise (· < ·)) {texts : List String}
    (h : ∀ t, t ∈ texts ↔ t ∈ one) : ascending texts = one :=
  (pairwise_ascending texts).eq_of_mem_iff hone fun t => mem_ascending_iff.trans (h t)

namespace Workspace

variable {h : Host} {inputs others : List String} {folder file : String} {here there : List String}

/-! ## Entered folders -/

theorem Enters.look (hentered : Enters h inputs folder here) : h.files.look here = some .folder := by
  cases hentered with
  | input _ _ hfolder => exact hfolder
  | inner _ hinner _ => exact hinner

/-- Folders whose path is too long are not entered. -/
theorem Enters.size_lt (hentered : Enters h inputs folder here) : folder.utf8ByteSize < Host.pathLimit := by
  cases hentered with
  | input _ hreal _ => exact size_lt_of_real? hreal
  | inner _ _ hshort => exact hshort

section

variable (hnamed : h.files.WellNamed) (hinputs : ∀ i ∈ inputs, Path.Proper i)
include hnamed hinputs

theorem Enters.proper (hentered : Enters h inputs folder here) : Path.Proper folder := by
  induction hentered with
  | input hinput => exact hinputs _ hinput
  | inner _ hinner _ ih =>
    obtain ⟨sub, hsub⟩ := Node.look_eq_folder_iff.mp hinner
    exact ih.join (Node.isEntry_of_at? hnamed hsub)

theorem Lists.proper (hlisted : Lists h inputs file) : Path.Proper file := by
  cases hlisted with
  | input hinput => exact hinputs file hinput
  | file hentered hfile =>
    obtain ⟨content, hcontent⟩ := Node.look_eq_file_iff.mp hfile
    exact (hentered.proper hnamed hinputs).join (Node.isEntry_of_at? hnamed hcontent)
  | link hentered hlink =>
    exact (hentered.proper hnamed hinputs).join (Node.isEntry_of_at? hnamed (Node.look_eq_link_iff.mp hlink))

/-- The path of an entered folder leads to the place that was entered. -/
theorem Enters.place_eq (hentered : Enters h inputs folder here) (hreal : h.real? folder = some there) :
    there = here := by
  obtain ⟨entries, hentries⟩ := Node.look_eq_folder_iff.mp hentered.look
  obtain ⟨input, hinput, place, names, hplace, hnames, rfl, rfl⟩ := hentered.exists_names hnamed
  exact real?_names (hinputs input hinput) hplace hnames hentries (fun _ => Node.noConfusion) hreal

/-- The path of a file in an entered folder leads to this file if it leads anywhere. -/
theorem Enters.place_of_file (hentered : Enters h inputs folder here) {name : String} {content : FileContent}
    (hcontent : h.files.at? (here ++ [name]) = some (.file content))
    (hreal : h.real? (Path.join folder name) = some there) : there = here ++ [name] := by
  obtain ⟨input, hinput, place, names, hplace, hnames, hjoin, hsame, -⟩ :=
    hentered.exists_names_entry hnamed hcontent
  rw [hjoin] at hreal
  rw [hsame] at hcontent ⊢
  exact real?_names (hinputs input hinput) hplace hnames hcontent (fun _ => Node.noConfusion) hreal

/-- A listed path is no folder. -/
theorem Lists.isFolder_eq_false (hlisted : Lists h inputs file) : h.isFolder file = false := by
  cases hlisted with
  | input hinput hfile => exact isFolder_of_isFile hfile
  | link hentered hlink hleads => exact hleads
  | @file folder name here hentered hfile =>
    obtain ⟨content, hcontent⟩ := Node.look_eq_file_iff.mp hfile
    cases hreal : h.real? (Path.join folder name) with
    | none =>
      rw [Host.isFolder, Host.node?, hreal]
      rfl
    | some there =>
      rw [Host.isFolder, node?_of_real? hreal, hentered.place_of_file hnamed hinputs hcontent hreal, hcontent]
      rfl

/-- No file in a folder whose path is too long is listed. -/
theorem not_lists_of_long {name : String} (hfolder : Path.Normal folder) (hname : Path.IsName name)
    (hlong : Host.pathLimit ≤ folder.utf8ByteSize) : ¬ Lists h inputs (Path.join folder name) := by
  have hapart : ∀ {entered last : String} {here : List String} {n : Node}, Enters h inputs entered here →
      h.files.at? (here ++ [last]) = some n → Path.join entered last ≠ Path.join folder name := by
    intro entered last here n hentered hn hsame
    obtain ⟨rfl, -⟩ := Path.join_inj (hentered.proper hnamed hinputs).normal
      (Node.isEntry_of_at? hnamed hn).isName hfolder hname hsame
    exact Nat.not_lt.mpr hlong hentered.size_lt
  intro hlisted
  generalize hfile : Path.join folder name = file at hlisted
  cases hlisted with
  | input hinput hisFile =>
    obtain ⟨here, content, hreal, -⟩ := real?_of_isFile hisFile
    have hshort := size_lt_of_real? hreal
    have hle : folder.utf8ByteSize ≤ (Path.join folder name).utf8ByteSize := Path.size_le_join hname
    rw [hfile] at hle
    omega
  | file hentered hlook =>
    obtain ⟨content, hcontent⟩ := Node.look_eq_file_iff.mp hlook
    exact hapart hentered hcontent hfile.symm
  | link hentered hlink => exact hapart hentered (Node.look_eq_link_iff.mp hlink) hfile.symm

/-! ## Inputs within inputs -/

/-- The path is that of an input, of an entered folder, or of a listed file. -/
def Covers (h : Host) (inputs : List String) (path : String) : Prop :=
  path ∈ inputs ∨ (∃ here, Enters h inputs path here) ∨ Lists h inputs path

/-- No other folders are entered from covered paths. -/
theorem Enters.of_covered (hothers : ∀ i ∈ others, Covers h inputs i) (hentered : Enters h others folder here) :
    Enters h inputs folder here := by
  induction hentered with
  | inner _ hinner hshort ih => exact .inner ih hinner hshort
  | @input folder here hother hreal hfolder =>
    rcases hothers folder hother with hinput | ⟨place, hplace⟩ | hlisted
    · exact .input hinput hreal hfolder
    · -- the folder is gone through already, and at the same place
      rwa [hplace.place_eq hnamed hinputs hreal]
    · obtain ⟨entries, hentries⟩ := Node.look_eq_folder_iff.mp hfolder
      have hnone := hlisted.isFolder_eq_false hnamed hinputs
      rw [Host.isFolder, node?_of_real? hreal, hentries] at hnone
      cases hnone

/-- No other files are listed from covered paths. -/
theorem Lists.of_covered (hothers : ∀ i ∈ others, Covers h inputs i) (hlisted : Lists h others file) :
    Lists h inputs file := by
  cases hlisted with
  | file hentered hfile => exact .file (hentered.of_covered hnamed hinputs hothers) hfile
  | link hentered hlink hleads => exact .link (hentered.of_covered hnamed hinputs hothers) hlink hleads
  | input hother hfile =>
    rcases hothers file hother with hinput | ⟨place, hplace⟩ | hlisted
    · exact .input hinput hfile
    · -- where a folder is gone through there is no file
      obtain ⟨entries, hentries⟩ := Node.look_eq_folder_iff.mp hplace.look
      obtain ⟨there, content, hreal, hcontent⟩ := real?_of_isFile hfile
      rw [hplace.place_eq hnamed hinputs hreal, hentries] at hcontent
      cases hcontent
    · exact hlisted

theorem Covers.proper (hcovered : Covers h inputs file) : Path.Proper file := by
  rcases hcovered with hinput | ⟨here, hentered⟩ | hlisted
  · exact hinputs file hinput
  · exact hentered.proper hnamed hinputs
  · exact hlisted.proper hnamed hinputs

end

/-- Inputs that cover each other have the same files. -/
theorem expand_eq_of_covers (hnamed : h.files.WellNamed) (hdistinct : h.files.Unambiguous)
    (hinputs : ∀ i ∈ inputs, Path.Proper i) (hothers : ∀ i ∈ others, Covers h inputs i)
    (hback : ∀ i ∈ inputs, Covers h others i) : expand h others = expand h inputs := by
  have hproper : ∀ i ∈ others, Path.Proper i := fun i hi => (hothers i hi).proper hnamed hinputs
  refine (pairwise_ascending _).eq_of_mem_iff (pairwise_ascending _) fun file => ?_
  show file ∈ expand h others ↔ file ∈ expand h inputs
  rw [mem_expand_iff_lists hdistinct, mem_expand_iff_lists hdistinct]
  exact ⟨Lists.of_covered hnamed hinputs hothers, Lists.of_covered hnamed hproper hback⟩

/-- The files of inputs are the files of each of them. -/
theorem expand_eq_of_mem_iff {one two : List String} (hall : ∀ i, i ∈ inputs ↔ i ∈ one ∨ i ∈ two) :
    expand h inputs = ascending (expand h one ++ expand h two) := by
  refine ascending_eq_of_mem_iff (pairwise_ascending _) fun file => ?_
  simp only [expand, List.mem_append, mem_ascending_iff, List.mem_flatMap, hall, or_and_right, exists_or]

end Workspace

/-! ## The files of a new workspace -/

namespace Analyzer

open Workspace

variable {a c : Analyzer} {w : Workspace} {paths : List String}

/-- The files of a workspace that `createWorkspace` made of paths. -/
structure Listing (a : Analyzer) (paths : List String) (h : Host) (inputs files : List String) : Prop where
  ascending : files.Pairwise (· < ·)
  members : ∀ file, file ∈ files ↔ Workspace.Lists h inputs file
  unmoved : ∀ others, (∀ i ∈ others, Covers h inputs i) → (∀ i ∈ inputs, Covers h others i) →
    expand h others = files
  reordered : ∀ others, (∀ p, p ∈ others ↔ p ∈ paths) →
    ∃ v, (createWorkspace others a).1 = .ok v ∧ expand h v.inputs = files
  combined : ∀ more v, (createWorkspace more a).1 = .ok v →
    ∃ u, (createWorkspace (paths ++ more) a).1 = .ok u ∧
      expand h u.inputs = Polyscan.ascending (files ++ expand h v.inputs)

theorem listing_expand (hmade : (createWorkspace paths a).1 = .ok w) {h : Host} (hnamed : h.files.WellNamed)
    (hdistinct : h.files.Unambiguous) : Listing a paths h w.inputs (expand h w.inputs) where
  ascending := pairwise_ascending _
  members _ := mem_expand_iff_lists hdistinct
  unmoved _ hothers hback :=
    expand_eq_of_covers hnamed hdistinct (proper_of_createWorkspace hmade) hothers hback
  reordered others hothers := by
    have hpaths := (inputs_of_createWorkspace hmade).1
    obtain ⟨v, hv⟩ := exists_createWorkspace fun p hp => hpaths p ((hothers p).mp hp)
    have hsame : ∀ i, i ∈ v.inputs ↔ i ∈ w.inputs := by
      intro i
      simp only [mem_inputs_iff hv, mem_inputs_iff hmade, hothers]
    exact ⟨v, hv, expand_eq_of_covers hnamed hdistinct (proper_of_createWorkspace hmade)
      (fun i hi => .inl ((hsame i).mp hi)) fun i hi => .inl ((hsame i).mpr hi)⟩
  combined more v hv := by
    obtain ⟨u, hu⟩ := exists_createWorkspace (List.forall_mem_append.mpr
      ⟨(inputs_of_createWorkspace hmade).1, (inputs_of_createWorkspace hv).1⟩)
    refine ⟨u, hu, expand_eq_of_mem_iff fun i => ?_⟩
    simp only [mem_inputs_iff hu, mem_inputs_iff hmade, mem_inputs_iff hv, List.mem_append, or_and_right,
      exists_or]

/-- `expandedFiles` of a new workspace gives a list in ascending order: of the inputs that are files, and of
the files in entered folders and the links in them that lead to no folder. Inputs that enter the same folders
and list the same files have the same list, and the list for a union of inputs is made of the lists for each
of them. -/
theorem expandedFiles_lists (hmade : (createWorkspace paths a).1 = .ok w) (hnamed : c.host.files.WellNamed)
    (hdistinct : c.host.files.Unambiguous) (hfresh : OrderedMap.find w.key c.expansions = none) :
    ∃ files d, (expandedFiles w).drive c = (.ok files, d) ∧ Listing a paths c.host w.inputs files := by
  obtain ⟨d, hdrive, -⟩ := expandedFiles_enacts (o := ⟨w, none⟩) (a := c)
  rw [filesOf_of_fresh hfresh] at hdrive
  exact ⟨_, d, hdrive, listing_expand hmade hnamed hdistinct⟩

/-- An analyzer on a machine with folders and links of all kinds. -/
def linkedFiles : Analyzer where
  host := ⟨.folder [("app", .folder [("main.py", .file (.bytes [])), ("lib", .link "/shared"),
    ("gone", .link "/nowhere"), ("sub", .folder [("b.py", .file (.bytes []))])]),
    ("shared", .folder [("util.py", .file (.bytes []))])], [], "/home/user", []⟩

/-- A linked folder is entered as an input but not within another one, and a link that leads nowhere is
listed. -/
theorem expandedFiles_lists_linkedFiles :
    ∃ files d, (expandedFiles ⟨0, "workspace1", ["/app", "/app/sub", "/app/lib"]⟩).drive linkedFiles =
        (.ok files, d) ∧
      files = ["/app/gone", "/app/lib/util.py", "/app/main.py", "/app/sub/b.py"] := by
  have hnamed : linkedFiles.host.files.WellNamed :=
    ⟨by decide, ⟨by decide, trivial, by decide, trivial, by decide, trivial, by decide,
      ⟨by decide, trivial, trivial⟩, trivial⟩, by decide, ⟨by decide, trivial, trivial⟩, trivial⟩
  have hfile : ∀ name, (Node.folder [(name, .file (.bytes []))]).Unambiguous := fun name =>
    Node.unambiguous_folder (List.nodup_singleton name)
      (List.forall_mem_singleton.mpr (Node.unambiguous_of_not_folder rfl))
  have hdistinct : linkedFiles.host.files.Unambiguous := by
    refine Node.unambiguous_folder (by decide) ?_
    simp only [List.forall_mem_cons]
    refine ⟨Node.unambiguous_folder (by decide) ?_, hfile "util.py", List.forall_mem_nil _⟩
    simp only [List.forall_mem_cons]
    exact ⟨Node.unambiguous_of_not_folder rfl, Node.unambiguous_of_not_folder rfl,
      Node.unambiguous_of_not_folder rfl, hfile "b.py", List.forall_mem_nil _⟩
  have hmade : (createWorkspace ["/app", "/app/sub/", "/app/lib"] linkedFiles).1 =
      .ok ⟨0, "workspace1", ["/app", "/app/sub", "/app/lib"]⟩ := rfl
  obtain ⟨files, d, hdrive, hlisting⟩ := expandedFiles_lists (c := linkedFiles) hmade hnamed hdistinct rfl
  refine ⟨files, d, hdrive, ?_⟩
  rw [← hlisting.unmoved _ (fun i hi => .inl hi) fun i hi => .inl hi]
  show Polyscan.ascending (Node.filesAmong linkedFiles.host.isFolder "/app" _ ++
    (Node.filesAmong linkedFiles.host.isFolder "/app/sub" _ ++
      (Node.filesAmong linkedFiles.host.isFolder "/app/lib" _ ++ []))) = _
  simp only [Node.filesAmong]
  rfl

/-! ### Long paths -/

/-- A file in nested folders, each the only entry of the one before. -/
def nest : Nat → Node
  | 0 => .file (.bytes [])
  | n + 1 => .folder [("d", nest n)]

theorem isEntry_d : Path.IsEntry "d" := by decide

theorem wellNamed_nest (n : Nat) : (nest n).WellNamed := by
  induction n with
  | zero => trivial
  | succ n ih => exact ⟨isEntry_d, ih, trivial⟩

theorem unambiguous_nest (n : Nat) : (nest n).Unambiguous := by
  induction n with
  | zero => exact Node.unambiguous_of_not_folder rfl
  | succ n ih => exact Node.unambiguous_folder (List.nodup_singleton "d") (List.forall_mem_singleton.mpr ih)

theorem look_nest (n : Nat) : (nest n).look (List.replicate n "d") = some .file := by
  induction n with
  | zero => rfl
  | succ n ih => exact ih

/-- The path of the nested folder at a depth. -/
def nestPath (n : Nat) : String := Path.ofNames "/" (List.replicate n "d")

theorem isName_of_mem_replicate {n : Nat} : ∀ c ∈ List.replicate n "d", Path.IsName c :=
  fun _ hc => List.eq_of_mem_replicate hc ▸ isEntry_d.isName

theorem join_nestPath (n : Nat) : Path.join (nestPath n) "d" = nestPath (n + 1) := by
  rw [nestPath, nestPath, Path.join_ofNames (.inl rfl) isName_of_mem_replicate isEntry_d.isName,
    ← List.replicate_succ']

theorem foldl_join_nestPath (m n : Nat) :
    (List.replicate n "d").foldl Path.join (nestPath m) = nestPath (m + n) := by
  rw [nestPath, nestPath, Path.foldl_join_ofNames (.inl rfl) isName_of_mem_replicate isName_of_mem_replicate,
    List.replicate_append_replicate]

theorem size_nestPath (n : Nat) : (nestPath (n + 1)).utf8ByteSize = 2 * (n + 1) := by
  induction n with
  | zero => decide
  | succ n ih =>
    have hends : Text.endsWith (nestPath (n + 1)) "/" = false := Bool.eq_false_iff.mpr fun hslash =>
      List.cons_ne_nil "d" _ ((Path.endsWith_slash_iff (.inl rfl) isName_of_mem_replicate).mp hslash)
    have hsome : (nestPath (n + 1)).isEmpty = false := by
      simp [nestPath, Path.ofNames]
    rw [← join_nestPath, Path.size_join isEntry_d.isName hsome hends, ih]
    have hsize : "d".utf8ByteSize = 1 := by decide
    omega

/-- An analyzer on a machine with so many nested folders that the path of the last one is too long. -/
def deep : Analyzer where
  host := ⟨nest 2049, [], "/home/user", []⟩

/-- The file is reached from an input through folders only, but it is not listed as the path of the last
folder is too long. -/
theorem expand_omits_deep :
    ∃ w, (createWorkspace ["/d"] deep).1 = .ok w ∧ "/d" ∈ w.inputs ∧ deep.host.real? "/d" = some ["d"] ∧
      deep.host.files.look (["d"] ++ List.replicate 2048 "d") = some .file ∧
      (List.replicate 2048 "d").foldl Path.join "/d" ∉ expand deep.host w.inputs := by
  refine ⟨⟨0, "workspace1", ["/d"]⟩, rfl, List.mem_singleton_self _, rfl, look_nest 2049, ?_⟩
  have hmade : (createWorkspace ["/d"] deep).1 = .ok ⟨0, "workspace1", ["/d"]⟩ := rfl
  have hfile : (List.replicate 2048 "d").foldl Path.join "/d" = Path.join (nestPath 2048) "d" :=
    (foldl_join_nestPath 1 2048).trans (join_nestPath 2048).symm
  have hlong : Host.pathLimit ≤ (nestPath 2048).utf8ByteSize := (size_nestPath 2047).ge
  rw [mem_expand_iff_lists (unambiguous_nest 2049), hfile]
  exact not_lists_of_long (wellNamed_nest 2049) (proper_of_createWorkspace hmade)
    ⟨"/", _, .inl rfl, isName_of_mem_replicate, rfl⟩ isEntry_d.isName hlong

end Analyzer

end Polyscan
