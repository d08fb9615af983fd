import Polyscan.Analyzer.Basic
import Polyscan.Proofs.Host

/-!
Workspaces. Inputs and listed files have proper paths, on a host whose folders have names that entries may
have.
-/
namespace Polyscan

/-! ## Folders -/

namespace Node

mutual

/-- Every node beneath has a name that an entry may have. -/
def WellNamed : Node → Prop
  | .folder entries => AllWellNamed entries
  | _ => True

def AllWellNamed : List (String × Node) → Prop
  | [] => True
  | (name, n) :: rest => Path.IsEntry name ∧ n.WellNamed ∧ AllWellNamed rest

end

theorem wellNamed_of_findEntry {name : String} {n : Node} {entries : List (String × Node)}
    (h : AllWellNamed entries) (hn : findEntry name entries = some n) : n.WellNamed := by
  induction entries with
  | nil => cases hn
  | cons entry rest ih =>
    obtain ⟨a, m⟩ := entry
    obtain ⟨-, hm, hrest⟩ := h
    unfold findEntry at hn
    by_cases ha : a = name
    · rw [if_pos ha] at hn
      cases hn
      exact hm
    · rw [if_neg ha] at hn
      exact ih hrest hn

theorem wellNamed_of_at? {root n : Node} {names : List String} (h : root.WellNamed)
    (hn : root.at? names = some n) : n.WellNamed := by
  induction names generalizing root with
  | nil =>
    cases hn
    exact h
  | cons name rest ih =>
    unfold at? at hn
    cases hentry : root.entry? name with
    | none =>
      rw [hentry] at hn
      cases hn
    | some m =>
      rw [hentry] at hn
      refine ih ?_ hn
      cases root with
      | folder entries => exact wellNamed_of_findEntry h hentry
      | file content => cases hentry
      | link target => cases hentry

/-- A property of folder paths that entries inherit holds for all files beneath. -/
theorem forall_mem_filesAmong {P : String → Prop}
    (hjoin : ∀ {folder name}, P folder → Path.IsEntry name → P (Path.join folder name))
    {isFolder : String → Bool} {path : String} {entries : List (String × Node)} (hpath : P path)
    (hentries : AllWellNamed entries) : ∀ file ∈ filesAmong isFolder path entries, P file := by
  fun_induction filesAmong isFolder path entries with
  | case1 path => simp
  | case2 path name entries rest ihentries ihrest =>
    -- one hypothesis for the entries of the folder, one for the entries behind it
    obtain ⟨hname, hentries, hrest⟩ := hentries
    intro file hfile
    rcases List.mem_append.mp hfile with hfile | hfile
    · split at hfile
      · cases hfile
      · exact ihentries (hjoin hpath hname) hentries file hfile
    · exact ihrest hpath hrest file hfile
  | case3 path name target rest ih =>
    -- a link is listed under its own path or not at all
    obtain ⟨hname, -, hrest⟩ := hentries
    intro file hfile
    rcases List.mem_append.mp hfile with hfile | hfile
    · split at hfile
      · cases hfile
      · rw [List.mem_singleton.mp hfile]
        exact hjoin hpath hname
    · exact ih hpath hrest file hfile
  | case4 path name content rest ih =>
    obtain ⟨hname, -, hrest⟩ := hentries
    intro file hfile
    rcases List.mem_cons.mp hfile with rfl | hfile
    · exact hjoin hpath hname
    · exact ih hpath hrest file hfile

end Node

/-! ## Files -/

theorem mem_insertAscending {s t : String} {l : List String} (h : t ∈ insertAscending s l) :
    t = s ∨ t ∈ l := by
  fun_induction insertAscending s l with
  | case1 => exact .inl (List.mem_singleton.mp h)
  | case2 u rest hlt => exact List.mem_cons.mp h
  | case3 rest hlt => exact .inr h
  | case4 u rest hlt hne ih =>
    rcases List.mem_cons.mp h with rfl | h
    · exact .inr List.mem_cons_self
    · rcases ih h with h | h
      · exact .inl h
      · exact .inr (List.mem_cons_of_mem u h)

/-- Sorting adds no elements. -/
theorem mem_of_mem_ascending {texts : List String} {t : String} (h : t ∈ ascending texts) : t ∈ texts := by
  have hfold : ∀ (more read : List String),
      t ∈ more.foldl (fun l s => insertAscending s l) read → t ∈ read ∨ t ∈ more := by
    intro more
    induction more with
    | nil => exact fun read ht => .inl ht
    | cons s more ih =>
      intro read ht
      rcases ih _ ht with ht | ht
      · rcases mem_insertAscending ht with rfl | ht
        · exact .inr List.mem_cons_self
        · exact .inl ht
      · exact .inr (List.mem_cons_of_mem s ht)
  exact (hfold texts [] h).resolve_left (List.not_mem_nil)

namespace Workspace

/-- A property of existing inputs that entries inherit holds for all files of `expand`. -/
theorem forall_mem_expand {P : String → Prop}
    (hjoin : ∀ {folder name}, P folder → Path.IsEntry name → P (Path.join folder name)) {h : Host}
    (hnamed : h.files.WellNamed) {inputs : List String}
    (hinputs : ∀ i ∈ inputs, (h.real? i).isSome = true → P i) : ∀ file ∈ expand h inputs, P file := by
  intro file hfile
  obtain ⟨input, hinput, hfile⟩ := List.mem_flatMap.mp (mem_of_mem_ascending hfile)
  unfold filesOf at hfile
  split at hfile
  · cases hfile
  · next here hhere =>
    have hholds : P input := hinputs input hinput (by rw [hhere]; rfl)
    split at hfile
    · next entries hentries =>
      exact Node.forall_mem_filesAmong hjoin hholds (Node.wellNamed_of_at? hnamed hentries) file hfile
    · rw [List.mem_singleton.mp hfile]
      exact hholds
    · cases hfile

/-- If the inputs are proper, so are the files of `expand`. -/
theorem proper_of_mem_expand {h : Host} (hnamed : h.files.WellNamed) {inputs : List String}
    (hinputs : ∀ i ∈ inputs, Path.Proper i) : ∀ file ∈ expand h inputs, Path.Proper file :=
  forall_mem_expand Path.Proper.join hnamed fun i hi _ => hinputs i hi

/-- No file of `expand` has a null character in its path. -/
theorem noZero_of_mem_expand {h : Host} (hnamed : h.files.WellNamed) (inputs : List String) :
    ∀ file ∈ expand h inputs, '\x00' ∉ file.toList := by
  refine forall_mem_expand (P := fun file => '\x00' ∉ file.toList) Path.noZero_join hnamed ?_
  intro i _ hthere hzero
  unfold Host.real? at hthere
  rw [if_pos hzero] at hthere
  cases hthere

/-! ## Inputs -/

theorem proper_of_existing {h : Host} {p path : String} (hp : existing h p = .ok path) :
    Path.Proper path := by
  unfold existing at hp
  cases hresolved : h.resolve p with
  | error f =>
    rw [hresolved] at hp
    cases hp
  | ok absolute =>
    simp only [hresolved, bind, Except.bind] at hp
    split at hp
    · next hthere =>
      rw [← Except.ok.inj hp]
      exact Host.proper_of_resolve hresolved hthere
    · cases hp

theorem proper_of_absoluteInputs {h : Host} {paths seen inputs : List String}
    (hseen : ∀ i ∈ seen, Path.Proper i) (hinputs : absoluteInputs h seen paths = .ok inputs) :
    ∀ i ∈ inputs, Path.Proper i := by
  induction paths generalizing seen with
  | nil =>
    cases hinputs
    exact hseen
  | cons p rest ih =>
    unfold absoluteInputs at hinputs
    cases hexisting : existing h p with
    | error f =>
      rw [hexisting] at hinputs
      cases hinputs
    | ok path =>
      simp only [hexisting, bind, Except.bind] at hinputs
      refine ih ?_ hinputs
      intro i hi
      split at hi
      · exact hseen i hi
      · rcases List.mem_append.mp hi with hi | hi
        · exact hseen i hi
        · rw [List.mem_singleton.mp hi]
          exact proper_of_existing hexisting

end Workspace

namespace Analyzer

/-- The inputs of a created workspace are proper. -/
theorem proper_of_createWorkspace {made : Analyzer} {paths : List String} {w : Workspace}
    (h : (createWorkspace paths made).1 = .ok w) : ∀ i ∈ w.inputs, Path.Proper i := by
  unfold createWorkspace at h
  simp only at h
  split at h
  · next inputs hinputs =>
    cases h
    exact Workspace.proper_of_absoluteInputs (by simp) hinputs
  · cases h

end Analyzer

end Polyscan
