import Mathlib.Data.List.Nodup
import Polyscan.Proofs.OrderedMap
import Polyscan.Proofs.Spelling
import Polyscan.Proofs.StartPoint
import Polyscan.Proofs.Workspace

/-!
The inputs of a workspace. Each path must exist, and its absolute form is kept at its first occurrence. So
every spelling of a path is kept once, and the inputs of a workspace are unchanged when a workspace is created
from them.
-/
namespace Polyscan

namespace Workspace

variable {h : Host} {p : String} {seen before after paths inputs : List String}

/-- The absolute form of a path exists. -/
def IsThere (h : Host) (p : String) : Prop := ¬ Path.Unaskable p ∧ h.exists? (h.absolute p) = true

theorem existing_of_there (hp : IsThere h p) : existing h p = .ok (h.absolute p) := by
  rw [StartPoint.existing_of_not_unaskable hp.1, if_pos hp.2]

theorem existing_of_missing (hask : ¬ Path.Unaskable p) (hp : ¬ IsThere h p) :
    existing h p = .error (.invalidInput (.missingPath (h.absolute p))) := by
  rw [StartPoint.existing_of_not_unaskable hask, if_neg fun hthere => hp ⟨hask, hthere⟩]

/-! ## Path by path -/

theorem absoluteInputs_cons (hp : IsThere h p) (seen rest : List String) :
    absoluteInputs h seen.eraseDups (p :: rest) =
      absoluteInputs h (seen ++ [h.absolute p]).eraseDups rest := by
  rw [absoluteInputs, existing_of_there hp, OrderedMap.eraseDups_snoc]
  simp only [List.mem_eraseDups]
  rfl

/-- Existing paths are kept by their absolute forms, in the order of their first occurrence. -/
theorem absoluteInputs_append (hbefore : ∀ q ∈ before, IsThere h q) (seen after : List String) :
    absoluteInputs h seen.eraseDups (before ++ after) =
      absoluteInputs h (seen ++ before.map h.absolute).eraseDups after := by
  induction before generalizing seen with
  | nil => simp
  | cons q before ih =>
    obtain ⟨hq, hbefore⟩ := List.forall_mem_cons.mp hbefore
    rw [List.cons_append, absoluteInputs_cons hq, ih hbefore]
    simp

theorem absoluteInputs_of_there (hpaths : ∀ q ∈ paths, IsThere h q) :
    absoluteInputs h [] paths = .ok (paths.map h.absolute).eraseDups := by
  have happend := absoluteInputs_append hpaths [] []
  rw [List.append_nil, List.nil_append] at happend
  exact happend

/-- The first path that does not exist is refused. -/
theorem absoluteInputs_of_refused {f : Fault} (hbefore : ∀ q ∈ before, IsThere h q)
    (hp : existing h p = .error f) (after : List String) :
    absoluteInputs h [] (before ++ p :: after) = .error f := by
  have happend := absoluteInputs_append hbefore [] (p :: after)
  rw [absoluteInputs, hp] at happend
  exact happend

/-- Either all paths exist, or there is a first one that does not. -/
theorem there_or_missing (h : Host) (paths : List String) :
    (∀ p ∈ paths, IsThere h p) ∨
      ∃ before p after, paths = before ++ p :: after ∧ (∀ q ∈ before, IsThere h q) ∧ ¬ IsThere h p := by
  induction paths with
  | nil => exact .inl (List.forall_mem_nil _)
  | cons p rest ih =>
    by_cases hp : IsThere h p
    · rcases ih with hrest | ⟨before, q, after, rfl, hbefore, hq⟩
      · exact .inl (List.forall_mem_cons.mpr ⟨hp, hrest⟩)
      · exact .inr ⟨p :: before, q, after, rfl, List.forall_mem_cons.mpr ⟨hp, hbefore⟩, hq⟩
    · exact .inr ⟨[], p, rest, rfl, List.forall_mem_nil _, hp⟩

theorem exists_existing_error (hp : ¬ IsThere h p) : ∃ f, existing h p = .error f := by
  by_cases hask : Path.Unaskable p
  · exact ⟨_, StartPoint.existing_of_unaskable hask⟩
  · exact ⟨_, existing_of_missing hask hp⟩

/-- `absoluteInputs` gives the absolute forms of existing paths. -/
theorem absoluteInputs_eq_ok_iff :
    absoluteInputs h [] paths = .ok inputs ↔
      (∀ p ∈ paths, IsThere h p) ∧ inputs = (paths.map h.absolute).eraseDups := by
  constructor
  · intro hinputs
    rcases there_or_missing h paths with hpaths | ⟨before, p, after, rfl, hbefore, hp⟩
    · rw [absoluteInputs_of_there hpaths] at hinputs
      exact ⟨hpaths, (Except.ok.inj hinputs).symm⟩
    · obtain ⟨f, hf⟩ := exists_existing_error hp
      rw [absoluteInputs_of_refused hbefore hf] at hinputs
      cases hinputs
  · rintro ⟨hpaths, rfl⟩
    exact absoluteInputs_of_there hpaths

/-! ## Kept paths -/

/-- Whether an absolute path exists does not depend on the working directory. -/
theorem exists?_congr {h' : Host} (hfiles : h'.files = h.files) (hp : Path.isAbsolute p = true) :
    h'.exists? p = h.exists? p :=
  congrArg Option.isSome (Host.node?_congr hfiles hp)

/-- The absolute form of an existing path exists from any working directory. -/
theorem IsThere.of_kept {h' : Host} (hp : IsThere h p) (hfiles : h'.files = h.files) :
    IsThere h' (h.absolute p) := by
  have hnormal := h.normal_absolute p
  refine ⟨Path.not_unaskable_of_isAbsolute hnormal.isAbsolute, ?_⟩
  rw [h'.absolute_of_normal hnormal, exists?_congr hfiles hnormal.isAbsolute]
  exact hp.2

end Workspace

namespace Analyzer

open Workspace

variable {a : Analyzer} {w : Workspace} {paths : List String}

theorem createWorkspace_eq_ok_iff :
    (createWorkspace paths a).1 = .ok w ↔ ∃ inputs, absoluteInputs a.host [] paths = .ok inputs ∧
      w = ⟨a.workspaces, (a.ids.next "workspace").1, inputs⟩ := by
  unfold createWorkspace
  cases hinputs : absoluteInputs a.host [] paths with
  | error f => simp [hinputs]
  | ok inputs => simp [hinputs, newWorkspace, eq_comm]

/-- The inputs of a workspace are the absolute forms of its paths, which all exist. -/
theorem inputs_of_createWorkspace (hmade : (createWorkspace paths a).1 = .ok w) :
    (∀ p ∈ paths, IsThere a.host p) ∧ w.inputs = (paths.map a.host.absolute).eraseDups := by
  obtain ⟨inputs, hinputs, rfl⟩ := createWorkspace_eq_ok_iff.mp hmade
  exact absoluteInputs_eq_ok_iff.mp hinputs

theorem mem_inputs_iff (hmade : (createWorkspace paths a).1 = .ok w) {i : String} :
    i ∈ w.inputs ↔ ∃ p ∈ paths, a.host.absolute p = i := by
  rw [(inputs_of_createWorkspace hmade).2, List.mem_eraseDups, List.mem_map]

theorem nodup_inputs (hmade : (createWorkspace paths a).1 = .ok w) : w.inputs.Nodup := by
  rw [(inputs_of_createWorkspace hmade).2]
  exact OrderedMap.nodup_eraseDups _

theorem normal_of_mem_inputs (hmade : (createWorkspace paths a).1 = .ok w) :
    ∀ i ∈ w.inputs, Path.Normal i := by
  intro i hi
  obtain ⟨p, -, rfl⟩ := (mem_inputs_iff hmade).mp hi
  exact a.host.normal_absolute p

theorem exists_createWorkspace (hpaths : ∀ p ∈ paths, IsThere a.host p) :
    ∃ w, (createWorkspace paths a).1 = .ok w :=
  ⟨_, createWorkspace_eq_ok_iff.mpr ⟨_, absoluteInputs_of_there hpaths, rfl⟩⟩

/-- The inputs of a workspace are kept as they are by `createWorkspace`, from any working directory. -/
theorem createWorkspace_again {b : Analyzer} (hmade : (createWorkspace paths a).1 = .ok w)
    (hfiles : b.host.files = a.host.files) :
    ∃ v, (createWorkspace w.inputs b).1 = .ok v ∧ v.inputs = w.inputs := by
  have hthere : ∀ i ∈ w.inputs, IsThere b.host i := by
    intro i hi
    obtain ⟨p, hp, rfl⟩ := (mem_inputs_iff hmade).mp hi
    exact ((inputs_of_createWorkspace hmade).1 p hp).of_kept hfiles
  have hkept : w.inputs.map b.host.absolute = w.inputs :=
    (List.map_congr_left fun i hi => b.host.absolute_of_normal (normal_of_mem_inputs hmade i hi)).trans
      (List.map_id _)
  obtain ⟨v, hv⟩ := exists_createWorkspace hthere
  refine ⟨v, hv, ?_⟩
  rw [(inputs_of_createWorkspace hv).2, hkept, OrderedMap.eraseDups_of_nodup (nodup_inputs hmade)]

theorem createWorkspace_error {f : Fault} (hf : absoluteInputs a.host [] paths = .error f) :
    (createWorkspace paths a).1 = .error f := by
  unfold createWorkspace
  simp only [hf]

/-- The outcome of `createWorkspace` on paths. -/
structure Normalizes (a : Analyzer) (paths : List String) (made : Except Fault Workspace) : Prop where
  succeeds : (∃ w, made = .ok w) ↔ ∀ p ∈ paths, IsThere a.host p
  missing : ∀ before p after, paths = before ++ p :: after → (∀ q ∈ before, IsThere a.host q) →
    ¬ IsThere a.host p → ¬ Path.Unaskable p →
    made = .error (.invalidInput (.missingPath (a.host.absolute p)))
  unaskable : ∀ before p after, paths = before ++ p :: after → (∀ q ∈ before, IsThere a.host q) →
    Path.Unaskable p → made = .error Host.nullByte
  inputs : ∀ w, made = .ok w → w.inputs = (paths.map a.host.absolute).eraseDups
  distinct : ∀ w, made = .ok w → w.inputs.Nodup
  normal : ∀ w, made = .ok w → ∀ i ∈ w.inputs, Path.Normal i
  bare : ∀ w, made = .ok w → ∀ i ∈ w.inputs, Text.endsWith i "/" = true → Path.IsRoot i
  once : ∀ w, made = .ok w → ∀ p ∈ paths, ∀ q, a.host.Respells q p → w.inputs.count (a.host.absolute q) = 1
  again : ∀ w, made = .ok w → ∀ b : Analyzer, b.host.files = a.host.files →
    ∃ v, (createWorkspace w.inputs b).1 = .ok v ∧ v.inputs = w.inputs

/-- `createWorkspace` on any list of paths: it fails for the first path that does not exist, and if all of
them exist, its inputs are their absolute forms, each once and in the order of first occurrence. Applied to
these inputs it keeps them. -/
theorem createWorkspace_normalizes (paths : List String) (a : Analyzer) :
    a.Normalizes paths (createWorkspace paths a).1 := by
  constructor
  case succeeds =>
    constructor
    · rintro ⟨w, hw⟩
      exact (inputs_of_createWorkspace hw).1
    · exact exists_createWorkspace
  case missing =>
    rintro before p after rfl hbefore hp hask
    exact createWorkspace_error (absoluteInputs_of_refused hbefore (existing_of_missing hask hp) after)
  case unaskable =>
    rintro before p after rfl hbefore hask
    exact createWorkspace_error
      (absoluteInputs_of_refused hbefore (StartPoint.existing_of_unaskable hask) after)
  case inputs => exact fun w hw => (inputs_of_createWorkspace hw).2
  case distinct => exact fun w hw => nodup_inputs hw
  case normal => exact fun w hw => normal_of_mem_inputs hw
  case bare =>
    intro w hw i hi hslash
    obtain ⟨root, names, hroot, hnames, rfl⟩ := normal_of_mem_inputs hw i hi
    rw [(Path.endsWith_slash_iff hroot hnames).mp hslash, Path.ofNames_nil]
    exact hroot
  case once =>
    intro w hw p hp q hq
    rw [hq.absolute_eq]
    exact List.count_eq_one_of_mem (nodup_inputs hw) ((mem_inputs_iff hw).mpr ⟨p, hp, rfl⟩)
  case again => exact fun w hw b hfiles => createWorkspace_again hw hfiles

/-- The path `~a` with a zero byte fails by `expandHome` and not as a missing path, which it is without the
tilde. -/
theorem createWorkspace_fails_unaskable :
    (createWorkspace ["~a\x00b"] { host := .withMain [] }).1 = .error Host.nullByte ∧
      Host.nullByte.kind ≠ .invalidInput ∧
      (createWorkspace ["a\x00b"] { host := .withMain [] }).1 =
        .error (.invalidInput (.missingPath "/a\x00b")) :=
  ⟨rfl, by decide, rfl⟩

end Analyzer

end Polyscan
