import Mathlib.Data.List.Induction
import Polyscan.Proofs.FileTree
import Polyscan.Proofs.OrderedMap
import Polyscan.Proofs.Workspace

/-!
`Workspace.expand`. Folders are listed recursively, links to folders are not entered, and a folder whose path
has `pathLimit` bytes or more cannot be opened and is left out. `Lists` says this entry by entry and `Reaches`
in terms of paths: a file is listed if its path is an input, or continues a folder among the inputs by names
of nested folders.
-/
namespace Polyscan

/-! ## Slashes and names -/

namespace Node

/-- An empty piece is ignored if another one follows. -/
theorem descend_blank {root : Node} {follow : Bool} {here todo : List String} (h : todo ≠ []) :
    root.descend follow here ("" :: todo) = root.descend follow here todo := by
  rw [descend_eq_descendBy, descend_eq_descendBy]
  by_cases hhere : root.look here = some .folder
  · simp [descendBy, hhere]
  · cases todo with
    | nil => exact absurd rfl h
    | cons piece rest => simp [descendBy, hhere]

theorem walk_blank {root : Node} {follow : Bool} {links : Nat} {here : List String} {place : Place}
    (h : root.walk follow links here [""] = .ok place) : place = .found here := by
  have hdescend : root.descend follow here [""] = .done (.found here) ∨
      root.descend follow here [""] = .refused .notAFolder := by
    rw [descend_eq_descendBy]
    by_cases hhere : root.look here = some .folder
    · exact .inl (by simp [descendBy, hhere])
    · exact .inr (by simp [descendBy, hhere])
  rcases hdescend with hdescend | hdescend
  · rw [walk_of_done hdescend links] at h
    exact (Except.ok.inj h).symm
  · cases links <;> rw [walk, hdescend] at h <;> cases h

end Node

namespace Host

variable {h : Host} {root : String} {names : List String}

theorem walk_pieces_ofNames (hroot : Path.IsRoot root) (hnames : ∀ c ∈ names, Path.IsName c)
    (hne : names ≠ []) (links : Nat) :
    h.files.walk true links [] (Path.pieces (Path.ofNames root names)) =
      h.files.walk true links [] names := by
  refine Node.walk_of_descend_eq ?_ links
  rw [Path.pieces_ofNames hroot hnames hne]
  rcases hroot with rfl | rfl
  · exact Node.descend_blank hne
  · exact (Node.descend_blank (List.cons_ne_nil "" names)).trans (Node.descend_blank hne)

/-- The real place of an absolute path is found by its names. -/
theorem walk_of_real? {here : List String} (hroot : Path.IsRoot root) (hnames : ∀ c ∈ names, Path.IsName c)
    (hreal : h.real? (Path.ofNames root names) = some here) :
    h.files.walk true linkLimit [] names = .ok (.found here) := by
  obtain ⟨-, hlocated⟩ := locate_eq_ok_iff.mp (locate_of_real? hreal)
  rw [if_pos (Path.isAbsolute_ofNames hroot)] at hlocated
  by_cases hne : names = []
  · -- after the slashes of a root there is one more empty piece
    subst hne
    have hhere : Place.found here = .found [] := by
      rcases hroot with rfl | rfl
      · exact Node.walk_blank ((Node.walk_of_descend_eq
          (Node.descend_blank (List.cons_ne_nil "" [])) linkLimit).symm.trans hlocated)
      · exact Node.walk_blank ((Node.walk_of_descend_eq ((Node.descend_blank (List.cons_ne_nil "" [""])).trans
          (Node.descend_blank (List.cons_ne_nil "" []))) linkLimit).symm.trans hlocated)
    rw [hhere]
    exact Node.walk_of_done rfl linkLimit
  · rw [walk_pieces_ofNames hroot hnames hne] at hlocated
    exact hlocated

end Host

/-! ## What is in a folder -/

namespace Node

/-- The entries of every folder have different names. -/
def Unambiguous (root : Node) : Prop :=
  ∀ place entries, root.at? place = some (.folder entries) → (entries.map Prod.fst).Nodup

theorem findEntry_eq_find (name : String) (entries : List (String × Node)) :
    findEntry name entries = OrderedMap.find name entries := by
  induction entries with
  | nil => rfl
  | cons e rest ih =>
    obtain ⟨a, n⟩ := e
    rw [findEntry, OrderedMap.find, ih]

theorem unambiguous_folder {entries : List (String × Node)} (hnames : (entries.map Prod.fst).Nodup)
    (h : ∀ e ∈ entries, e.2.Unambiguous) : (folder entries).Unambiguous := by
  intro place sub hsub
  cases place with
  | nil =>
    cases hsub
    exact hnames
  | cons name rest =>
    rw [at?_cons, findEntry_eq_find] at hsub
    obtain ⟨n, hn, hsub⟩ := Option.bind_eq_some_iff.mp hsub
    exact h _ (OrderedMap.mem_of_find hn) rest sub hsub

theorem unambiguous_of_not_folder {n : Node} (h : n.isFolder = false) : n.Unambiguous := by
  intro place sub hsub
  cases n with
  | folder entries => cases h
  | file content => cases place <;> cases hsub
  | link target => cases place <;> cases hsub

/-- The files of one entry of a folder. -/
def filesOfEntry (isFolder : String → Bool) (path : String) : String × Node → List String
  | (name, .folder entries) =>
    if Host.pathLimit ≤ (Path.join path name).utf8ByteSize then []
    else filesAmong isFolder (Path.join path name) entries
  | (name, .link _) => if isFolder (Path.join path name) then [] else [Path.join path name]
  | (name, .file _) => [Path.join path name]

theorem filesAmong_eq_flatMap (isFolder : String → Bool) (path : String) (entries : List (String × Node)) :
    filesAmong isFolder path entries = entries.flatMap (filesOfEntry isFolder path) := by
  induction entries with
  | nil => rw [filesAmong, List.flatMap_nil]
  | cons e rest ih =>
    obtain ⟨name, n⟩ := e
    rw [List.flatMap_cons, ← ih]
    cases n with
    | folder sub => rw [filesAmong, filesOfEntry]
    | link target => rw [filesAmong, filesOfEntry]
    | file content =>
      rw [filesAmong, filesOfEntry]
      rfl

theorem isEntry_of_mem {entries : List (String × Node)} (h : AllWellNamed entries) {e : String × Node}
    (he : e ∈ entries) : Path.IsEntry e.1 := by
  induction entries with
  | nil => cases he
  | cons first rest ih =>
    obtain ⟨name, n⟩ := first
    obtain ⟨hname, -, hrest⟩ := h
    rcases List.mem_cons.mp he with rfl | he
    · exact hname
    · exact ih hrest he

/-- Every node beneath has the name of an entry. -/
theorem isEntry_of_at? {root n : Node} {here : List String} {name : String} (h : root.WellNamed)
    (hn : root.at? (here ++ [name]) = some n) : Path.IsEntry name := by
  obtain ⟨entries, hentries⟩ := look_eq_folder_iff.mp (look_of_at?_concat hn)
  rw [at?_concat hentries, findEntry_eq_find] at hn
  exact isEntry_of_mem (wellNamed_of_at? h hentries) (OrderedMap.mem_of_find hn)

/-- The entries of a folder are at the places behind it. -/
theorem Unambiguous.at?_of_mem {root : Node} {here : List String} {entries : List (String × Node)}
    (h : root.Unambiguous) (hhere : root.at? here = some (.folder entries)) :
    ∀ e ∈ entries, root.at? (here ++ [e.1]) = some e.2 := by
  intro e he
  rw [at?_concat hhere, findEntry_eq_find]
  exact OrderedMap.find_of_mem (h here entries hhere) he

end Node

/-! ## The files of a workspace -/

theorem mem_insertAscending_of_mem {s t : String} {l : List String} (h : t = s ∨ t ∈ l) :
    t ∈ insertAscending s l := by
  fun_induction insertAscending s l with
  | case1 => simpa using h
  | case2 u rest hlt => exact List.mem_cons.mpr h
  | case3 rest hlt => rcases h with rfl | h <;> simp_all
  | case4 u rest hlt hne ih =>
    rcases h with h | h
    · exact List.mem_cons_of_mem u (ih (.inl h))
    · rcases List.mem_cons.mp h with rfl | h
      · exact List.mem_cons_self
      · exact List.mem_cons_of_mem u (ih (.inr h))

/-- Sorting keeps the members. -/
theorem mem_ascending_iff {texts : List String} {t : String} : t ∈ ascending texts ↔ t ∈ texts := by
  have hfold : ∀ (more read : List String), t ∈ read ∨ t ∈ more →
      t ∈ more.foldl (fun l s => insertAscending s l) read := by
    intro more
    induction more with
    | nil => exact fun read h => h.resolve_right List.not_mem_nil
    | cons s more ih =>
      intro read h
      refine ih _ ?_
      rcases h with h | h
      · exact .inl (mem_insertAscending_of_mem (.inr h))
      · rcases List.mem_cons.mp h with h | h
        · exact .inl (mem_insertAscending_of_mem (.inl h))
        · exact .inr h
  exact ⟨mem_of_mem_ascending, fun h => hfold texts [] (.inr h)⟩

/-- Insertion keeps a list strictly ascending. -/
theorem pairwise_insertAscending {s : String} {l : List String} (h : l.Pairwise (· < ·)) :
    (insertAscending s l).Pairwise (· < ·) := by
  fun_induction insertAscending s l with
  | case1 => exact List.pairwise_singleton _ s
  | case2 t rest hlt =>
    have htail := (List.pairwise_cons.mp h).1
    refine List.pairwise_cons.mpr ⟨?_, h⟩
    intro u hu
    rcases List.mem_cons.mp hu with rfl | hu
    · exact hlt
    · exact String.lt_trans hlt (htail u hu)
  | case3 rest hlt => exact h
  | case4 t rest hlt hne ih =>
    obtain ⟨htail, hrest⟩ := List.pairwise_cons.mp h
    refine List.pairwise_cons.mpr ⟨?_, ih hrest⟩
    intro u hu
    rcases mem_insertAscending hu with rfl | hu
    · by_contra hnot
      exact hne (String.le_antisymm (String.not_lt.mp hnot) (String.not_lt.mp hlt))
    · exact htail u hu

/-- Sorting gives a strictly ascending list. -/
theorem pairwise_ascending (texts : List String) : (ascending texts).Pairwise (· < ·) := by
  have hfold : ∀ (more read : List String), read.Pairwise (· < ·) →
      (more.foldl (fun l s => insertAscending s l) read).Pairwise (· < ·) := by
    intro more
    induction more with
    | nil => exact fun read h => h
    | cons s more ih => exact fun read h => ih _ (pairwise_insertAscending h)
  exact hfold texts [] List.Pairwise.nil

namespace Workspace

/-- The path is an input, or continues an input by names that lead down from the real place of the input, with
no link among them but the last. -/
def Reaches (h : Host) (inputs : List String) (file : String) : Prop :=
  file ∈ inputs ∨ ∃ folder ∈ inputs, ∃ here names, h.real? folder = some here ∧ names ≠ [] ∧
    (∀ c ∈ names, Path.IsName c) ∧ file = names.foldl Path.join folder ∧
    (h.files.at? (here ++ names)).isSome = true

/-- The folders that are opened, with their places: the inputs that are folders, and the folders that are
entries of an opened folder and whose path is shorter than `pathLimit`. -/
inductive Enters (h : Host) (inputs : List String) : String → List String → Prop
  | input {folder : String} {here : List String} (hinput : folder ∈ inputs)
      (hreal : h.real? folder = some here) (hfolder : h.files.look here = some .folder) :
      Enters h inputs folder here
  | inner {folder name : String} {here : List String} (hentered : Enters h inputs folder here)
      (hinner : h.files.look (here ++ [name]) = some .folder)
      (hshort : (Path.join folder name).utf8ByteSize < Host.pathLimit) :
      Enters h inputs (Path.join folder name) (here ++ [name])

/-- The files of a workspace: the inputs that are files, and the files in opened folders; a link counts as a
file unless it leads to a folder. -/
inductive Lists (h : Host) (inputs : List String) : String → Prop
  | input {file : String} (hinput : file ∈ inputs) (hfile : h.isFile file = true) : Lists h inputs file
  | file {folder name : String} {here : List String} (hentered : Enters h inputs folder here)
      (hfile : h.files.look (here ++ [name]) = some .file) : Lists h inputs (Path.join folder name)
  | link {folder name target : String} {here : List String} (hentered : Enters h inputs folder here)
      (hlink : h.files.look (here ++ [name]) = some (.link target))
      (hleads : h.isFolder (Path.join folder name) = false) : Lists h inputs (Path.join folder name)

section

variable {h : Host} {inputs here there names : List String} {folder file : String} {n : Node}

/-! ### Places of paths -/

theorem node?_of_real? (hreal : h.real? file = some here) : h.node? file = h.files.at? here := by
  rw [Host.node?, hreal]
  rfl

theorem real?_of_isFile (hfile : h.isFile file = true) :
    ∃ here content, h.real? file = some here ∧ h.files.at? here = some (.file content) := by
  unfold Host.isFile at hfile
  cases hnode : h.node? file with
  | none =>
    rw [hnode] at hfile
    cases hfile
  | some n =>
    rw [hnode] at hfile
    obtain ⟨here, hreal, hn⟩ := Option.bind_eq_some_iff.mp hnode
    cases n with
    | file content => exact ⟨here, content, hreal, hn⟩
    | folder entries => cases hfile
    | link target => cases hfile

theorem isFolder_of_isFile (hfile : h.isFile file = true) : h.isFolder file = false := by
  obtain ⟨here, content, hreal, hcontent⟩ := real?_of_isFile hfile
  rw [Host.isFolder, node?_of_real? hreal, hcontent]
  rfl

theorem size_lt_of_real? (hreal : h.real? file = some here) : file.utf8ByteSize < Host.pathLimit :=
  (Host.locate_eq_ok_iff.mp (Host.locate_of_real? hreal)).1.2

/-- Names of nested folders lead from the place of a folder to the place of the path that they continue. -/
theorem real?_names (hproper : Path.Proper folder) (hreal : h.real? folder = some here)
    (hnames : ∀ c ∈ names, Path.IsName c) (hn : h.files.at? (here ++ names) = some n)
    (hlink : ∀ target, n ≠ .link target) (hthere : h.real? (names.foldl Path.join folder) = some there) :
    there = here ++ names := by
  obtain ⟨root, ns, hroot, hns, rfl⟩ := hproper.normal
  rw [Path.foldl_join_ofNames hroot hns hnames] at hthere
  -- the whole path is resolved through the place of the folder
  obtain ⟨left, -, hon⟩ := Node.walk_append (Host.walk_of_real? hroot hns hreal)
  have hall : ∀ c ∈ ns ++ names, Path.IsName c := List.forall_mem_append.mpr ⟨hns, hnames⟩
  have hdown : h.files.walk true left here names = .ok (.found there) := by
    rw [← hon]
    exact Host.walk_of_real? hroot hall hthere
  have hend : h.files.walk true left (here ++ names) [] = .ok (.found there) := by
    rcases List.eq_nil_or_concat' names with rfl | ⟨before, last, rfl⟩
    · rwa [List.append_nil]
    · rw [← List.append_assoc] at hn ⊢
      refine Node.walk_name ?_ (hnames last (by simp)) hn hlink
      exact Node.walk_names hdown (fun c hc => hnames c (List.mem_append_left _ hc))
        (Node.look_of_at?_concat hn)
  rw [Node.walk_of_done rfl left] at hend
  cases hend
  rfl

/-! ### Folders that are gone through -/

/-- The files of an opened folder are listed for one of the inputs. -/
theorem Enters.exists_input (hentered : Enters h inputs folder here) :
    ∃ input ∈ inputs, ∃ entries, h.files.at? here = some (.folder entries) ∧
      ∀ file ∈ Node.filesAmong h.isFolder folder entries, file ∈ filesOf h input := by
  induction hentered with
  | @input folder here hinput hreal hfolder =>
    obtain ⟨entries, hentries⟩ := Node.look_eq_folder_iff.mp hfolder
    refine ⟨folder, hinput, entries, hentries, fun file hfile => ?_⟩
    unfold filesOf
    rw [hreal]
    simp only [hentries]
    exact hfile
  | @inner folder name here _ hinner hshort ih =>
    obtain ⟨input, hinput, entries, hentries, hall⟩ := ih
    obtain ⟨sub, hsub⟩ := Node.look_eq_folder_iff.mp hinner
    refine ⟨input, hinput, sub, hsub, fun file hfile => hall file ?_⟩
    rw [Node.at?_concat hentries, Node.findEntry_eq_find] at hsub
    rw [Node.filesAmong_eq_flatMap]
    refine List.mem_flatMap.mpr ⟨(name, .folder sub), OrderedMap.mem_of_find hsub, ?_⟩
    rw [Node.filesOfEntry, if_neg (Nat.not_le.mpr hshort)]
    exact hfile

/-- The path of an opened folder continues that of an input, and its place continues the place of the input by
the same names. -/
theorem Enters.exists_names (hnamed : h.files.WellNamed) (hentered : Enters h inputs folder here) :
    ∃ input ∈ inputs, ∃ place names, h.real? input = some place ∧ (∀ c ∈ names, Path.IsName c) ∧
      folder = names.foldl Path.join input ∧ here = place ++ names := by
  induction hentered with
  | @input folder here hinput hreal hfolder =>
    exact ⟨folder, hinput, here, [], hreal, List.forall_mem_nil _, rfl, (List.append_nil here).symm⟩
  | @inner folder name here _ hinner _ ih =>
    obtain ⟨input, hinput, place, names, hreal, hnames, rfl, rfl⟩ := ih
    obtain ⟨sub, hsub⟩ := Node.look_eq_folder_iff.mp hinner
    exact ⟨input, hinput, place, names ++ [name], hreal,
      Path.forall_isName_concat hnames (Node.isEntry_of_at? hnamed hsub).isName, (List.foldl_concat ..).symm,
      List.append_assoc place names [name]⟩

/-- The same for the entries of an opened folder. -/
theorem Enters.exists_names_entry (hnamed : h.files.WellNamed) (hentered : Enters h inputs folder here)
    {name : String} (hn : h.files.at? (here ++ [name]) = some n) :
    ∃ input ∈ inputs, ∃ place names, h.real? input = some place ∧ (∀ c ∈ names, Path.IsName c) ∧
      Path.join folder name = names.foldl Path.join input ∧ here ++ [name] = place ++ names ∧ names ≠ [] := by
  have hname := (Node.isEntry_of_at? hnamed hn).isName
  obtain ⟨input, hinput, place, names, hreal, hnames, rfl, rfl⟩ := hentered.exists_names hnamed
  exact ⟨input, hinput, place, names ++ [name], hreal, Path.forall_isName_concat hnames hname,
    (List.foldl_concat ..).symm, List.append_assoc place names [name], by simp⟩

/-- Names of nested folders lead from an input to an opened folder, if the path is shorter than `pathLimit`. -/
theorem enters_of_names (hinput : folder ∈ inputs) (hreal : h.real? folder = some here)
    (hnames : ∀ c ∈ names, Path.IsName c) (hfolder : h.files.look (here ++ names) = some .folder)
    (hshort : (names.foldl Path.join folder).utf8ByteSize < Host.pathLimit) :
    Enters h inputs (names.foldl Path.join folder) (here ++ names) := by
  induction names using List.reverseRecOn with
  | nil =>
    rw [List.append_nil] at hfolder ⊢
    exact .input hinput hreal hfolder
  | append_singleton before last ih =>
    obtain ⟨hbefore, hlast⟩ := List.forall_mem_append.mp hnames
    have hname := hlast last (List.mem_singleton_self last)
    rw [← List.append_assoc] at hfolder ⊢
    rw [List.foldl_concat] at hshort ⊢
    refine .inner (ih hbefore (Node.look_of_append hfolder) ?_) hfolder hshort
    exact Nat.lt_of_le_of_lt (Path.size_le_join hname) hshort

/-! ### Files -/

/-- The files that are listed for an opened folder are files of the workspace. -/
theorem lists_of_mem_filesAmong (hdistinct : h.files.Unambiguous) (hentered : Enters h inputs folder here)
    {entries : List (String × Node)}
    (hentries : ∀ e ∈ entries, h.files.at? (here ++ [e.1]) = some e.2) :
    ∀ file ∈ Node.filesAmong h.isFolder folder entries, Lists h inputs file := by
  fun_induction Node.filesAmong h.isFolder folder entries generalizing here with
  | case1 folder => exact List.forall_mem_nil _
  | case2 folder name sub rest ihsub ihrest =>
    -- the entries of this folder, and the entries behind it
    obtain ⟨hhere, hrest⟩ := List.forall_mem_cons.mp hentries
    refine List.forall_mem_append.mpr ⟨?_, ihrest hentered hrest⟩
    split
    · exact List.forall_mem_nil _
    · next hshort =>
      exact ihsub (.inner hentered (Node.look_eq_folder_iff.mpr ⟨sub, hhere⟩) (Nat.not_le.mp hshort))
        (hdistinct.at?_of_mem hhere)
  | case3 folder name target rest ih =>
    obtain ⟨hhere, hrest⟩ := List.forall_mem_cons.mp hentries
    refine List.forall_mem_append.mpr ⟨?_, ih hentered hrest⟩
    split
    · exact List.forall_mem_nil _
    · next hleads =>
      exact List.forall_mem_singleton.mpr
        (.link hentered (Node.look_eq_link_iff.mpr hhere) (Bool.eq_false_iff.mpr hleads))
  | case4 folder name content rest ih =>
    obtain ⟨hhere, hrest⟩ := List.forall_mem_cons.mp hentries
    exact List.forall_mem_cons.mpr
      ⟨.file hentered (Node.look_eq_file_iff.mpr ⟨content, hhere⟩), ih hentered hrest⟩

theorem lists_of_mem_filesOf (hdistinct : h.files.Unambiguous) {input : String} (hinput : input ∈ inputs) :
    ∀ file ∈ filesOf h input, Lists h inputs file := by
  unfold filesOf
  split
  · exact List.forall_mem_nil _
  · next here hreal =>
    split
    · next entries hentries =>
      exact lists_of_mem_filesAmong hdistinct
        (.input hinput hreal (Node.look_eq_folder_iff.mpr ⟨entries, hentries⟩))
        (hdistinct.at?_of_mem hentries)
    · next content hcontent =>
      refine List.forall_mem_singleton.mpr (.input hinput ?_)
      rw [Host.isFile, node?_of_real? hreal, hcontent]
      rfl
    · exact List.forall_mem_nil _

/-- Every file of a workspace is listed for one of its inputs. -/
theorem Lists.exists_input (hlisted : Lists h inputs file) : ∃ input ∈ inputs, file ∈ filesOf h input := by
  have hentry : ∀ {folder name : String} {here : List String} {n : Node}, Enters h inputs folder here →
      h.files.at? (here ++ [name]) = some n →
      Path.join folder name ∈ Node.filesOfEntry h.isFolder folder (name, n) →
      ∃ input ∈ inputs, Path.join folder name ∈ filesOf h input := by
    intro folder name here n hentered hn hmem
    obtain ⟨input, hinput, entries, hentries, hall⟩ := hentered.exists_input
    refine ⟨input, hinput, hall _ ?_⟩
    rw [Node.at?_concat hentries, Node.findEntry_eq_find] at hn
    rw [Node.filesAmong_eq_flatMap]
    exact List.mem_flatMap.mpr ⟨(name, n), OrderedMap.mem_of_find hn, hmem⟩
  cases hlisted with
  | input hinput hfile =>
    obtain ⟨here, content, hreal, hcontent⟩ := real?_of_isFile hfile
    refine ⟨file, hinput, ?_⟩
    unfold filesOf
    rw [hreal]
    simp only [hcontent]
    exact List.mem_singleton_self file
  | file hentered hfile =>
    obtain ⟨content, hcontent⟩ := Node.look_eq_file_iff.mp hfile
    exact hentry hentered hcontent (List.mem_singleton_self _)
  | link hentered hlink hleads =>
    refine hentry hentered (Node.look_eq_link_iff.mp hlink) ?_
    rw [Node.filesOfEntry, hleads]
    exact List.mem_singleton_self _

/-- `expand` lists the files of `Lists`. -/
theorem mem_expand_iff_lists (hdistinct : h.files.Unambiguous) :
    file ∈ expand h inputs ↔ Lists h inputs file := by
  rw [expand, mem_ascending_iff, List.mem_flatMap]
  constructor
  · rintro ⟨input, hinput, hfile⟩
    exact lists_of_mem_filesOf hdistinct hinput file hfile
  · exact Lists.exists_input

/-- `expand` lists a file if and only if an input reaches it. -/
theorem mem_expand_iff (hnamed : h.files.WellNamed) (hdistinct : h.files.Unambiguous)
    (hinputs : ∀ i ∈ inputs, Path.Proper i) (hfile : h.isFile file = true) :
    file ∈ expand h inputs ↔ Reaches h inputs file := by
  rw [mem_expand_iff_lists hdistinct]
  constructor
  · have hentry : ∀ {folder name : String} {here : List String}, Enters h inputs folder here →
        (h.files.at? (here ++ [name])).isSome = true → Reaches h inputs (Path.join folder name) := by
      intro folder name here hentered hthere
      obtain ⟨n, hn⟩ := Option.isSome_iff_exists.mp hthere
      obtain ⟨input, hinput, place, names, hreal, hnames, hjoin, hplace, hne⟩ :=
        hentered.exists_names_entry hnamed hn
      exact .inr ⟨input, hinput, place, names, hreal, hne, hnames, hjoin, hplace ▸ hthere⟩
    intro hlisted
    cases hlisted with
    | input hinput => exact .inl hinput
    | file hentered hlook => exact hentry hentered (Node.isSome_of_look hlook)
    | link hentered hlook => exact hentry hentered (Node.isSome_of_look hlook)
  · rintro (hinput | ⟨folder, hfolder, here, names, hreal, hne, hnames, rfl, hthere⟩)
    · exact .input hinput hfile
    · obtain ⟨before, last, rfl⟩ := (List.eq_nil_or_concat' names).resolve_left hne
      obtain ⟨hbefore, hlast⟩ := List.forall_mem_append.mp hnames
      obtain ⟨n, hn⟩ := Option.isSome_iff_exists.mp hthere
      obtain ⟨there, content, hfound, hcontent⟩ := real?_of_isFile hfile
      have hshort := size_lt_of_real? hfound
      have hinner := hn
      rw [← List.append_assoc] at hinner
      rw [List.foldl_concat] at hfile hshort ⊢
      have hentered : Enters h inputs (before.foldl Path.join folder) (here ++ before) :=
        enters_of_names hfolder hreal hbefore (Node.look_of_at?_concat hinner)
          (Nat.lt_of_le_of_lt (Path.size_le_join (hlast last (List.mem_singleton_self last))) hshort)
      cases n with
      | file other => exact .file hentered (Node.look_eq_file_iff.mpr ⟨other, hinner⟩)
      | link target =>
        exact .link hentered (Node.look_eq_link_iff.mpr hinner) (isFolder_of_isFile hfile)
      | folder entries =>
        -- path and names lead to the same place, where there is a file
        have hsame := real?_names (hinputs folder hfolder) hreal hnames hn (fun _ => Node.noConfusion) hfound
        rw [← hsame, hcontent] at hn
        cases hn

end

end Workspace

end Polyscan
