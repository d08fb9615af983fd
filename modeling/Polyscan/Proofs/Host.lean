import Polyscan.Host.Basic
import Polyscan.Proofs.Path

/-!
Paths of a host. `absolute` is in normal form and leaves such paths unchanged, and only regular files can be
read.
-/
namespace Polyscan

/-- The user after `~` has a null character in its name, and the lookup of the home folder raises a value
error. -/
def Path.Unaskable (p : String) : Prop :=
  (Path.homeOwner? p).any (fun name => '\x00' ∈ name.toList) = true

theorem Path.exists_slash {p : String} (hp : isAbsolute p = true) : ∃ rest, p.toList = '/' :: rest := by
  unfold isAbsolute Text.startsWith at hp
  obtain ⟨rest, hrest⟩ := List.isPrefixOf_iff_prefix.mp hp
  exact ⟨rest, hrest.symm⟩

/-- An absolute path does not begin with `~`. -/
theorem Path.not_unaskable_of_isAbsolute {p : String} (hp : isAbsolute p = true) : ¬ Unaskable p := by
  obtain ⟨rest, hrest⟩ := exists_slash hp
  unfold Unaskable homeOwner?
  rw [hrest]
  simp

namespace Host

/-! ## Resolving -/

theorem resolve_of_unaskable {h : Host} {p : String} (hp : Path.Unaskable p) :
    h.resolve p = .error nullByte := if_pos hp

theorem resolve_of_not_unaskable {h : Host} {p : String} (hp : ¬ Path.Unaskable p) :
    h.resolve p = .ok (h.absolute p) := if_neg hp

theorem isAbsolute_cwdPath (h : Host) : Path.isAbsolute h.cwdPath = true := by
  unfold Host.cwdPath
  simp [Path.isAbsolute, Text.startsWith]

/-- A path behind the working directory is absolute. -/
theorem isAbsolute_join (h : Host) (q : String) : Path.isAbsolute (Path.join h.cwdPath q) = true := by
  have hcwd := h.isAbsolute_cwdPath
  unfold Path.join
  by_cases hq : Path.isAbsolute q = true
  · rwa [if_pos hq]
  · rw [if_neg hq]
    unfold Path.isAbsolute Text.startsWith at hcwd ⊢
    rw [List.isPrefixOf_iff_prefix] at hcwd ⊢
    split
    · rw [String.toList_append]
      exact hcwd.trans (List.prefix_append _ _)
    · rw [String.toList_append, String.toList_append, List.append_assoc]
      exact hcwd.trans (List.prefix_append _ _)

/-- `absolute` is in normal form. -/
theorem normal_absolute (h : Host) (p : String) : Path.Normal (h.absolute p) :=
  Path.normal_normalize (h.isAbsolute_join _)

/-- `absolute` of an absolute path is its normal form, on every host. -/
theorem absolute_of_isAbsolute (h : Host) {p : String} (hp : Path.isAbsolute p = true) :
    h.absolute p = Path.normalize p := by
  obtain ⟨rest, hrest⟩ := Path.exists_slash hp
  have hhome : Path.expandHome h.home h.users p = p := by
    unfold Path.expandHome
    rw [hrest]
    rfl
  rw [absolute, hhome, Path.join, if_pos hp]

theorem absolute_of_normal (h : Host) {p : String} (hp : Path.Normal p) : h.absolute p = p := by
  rw [h.absolute_of_isAbsolute hp.isAbsolute, hp.normalize_eq]

/-- `resolve` leaves a path in normal form unchanged. -/
theorem resolve_of_normal (h : Host) {p : String} (hp : Path.Normal p) : h.resolve p = .ok p := by
  rw [resolve_of_not_unaskable (Path.not_unaskable_of_isAbsolute hp.isAbsolute), h.absolute_of_normal hp]

/-- A resolved path of something that exists is proper. -/
theorem proper_of_resolve {h : Host} {p path : String} (hp : h.resolve p = .ok path)
    (hthere : h.exists? path = true) : Path.Proper path where
  normal := by
    unfold resolve at hp
    split at hp
    · cases hp
    · rw [← Except.ok.inj hp]
      exact h.normal_absolute p
  noZero := by
    intro hzero
    unfold exists? node? real? at hthere
    rw [if_pos hzero] at hthere
    exact Bool.false_ne_true hthere

/-! ## Places -/

/-- The node of an absolute path does not depend on the working directory. -/
theorem node?_congr {h h' : Host} {p : String} (hfiles : h'.files = h.files) (hp : Path.isAbsolute p = true) :
    h'.node? p = h.node? p := by
  unfold node? real? locate
  rw [hfiles, if_pos hp, if_pos hp]

/-- `locate` resolves the pieces of a path that is neither empty nor too long. -/
theorem locate_eq_ok_iff {h : Host} {p : String} {follow : Bool} {place : Place} :
    h.locate p follow = .ok place ↔ (p.isEmpty = false ∧ p.utf8ByteSize < pathLimit) ∧
      h.files.walk follow linkLimit (if Path.isAbsolute p then [] else h.cwd) (Path.pieces p) =
        .ok place := by
  unfold locate
  by_cases hempty : p.isEmpty = true
  · simp [hempty]
  · by_cases hlong : pathLimit ≤ p.utf8ByteSize
    · simp [hempty, hlong, Nat.not_lt.mpr hlong]
    · simp [hempty, hlong, Nat.lt_of_not_le hlong]

theorem locate_of_real? {h : Host} {p : String} {names : List String} (hreal : h.real? p = some names) :
    h.locate p true = .ok (.found names) := by
  unfold real? at hreal
  split at hreal
  · cases hreal
  split at hreal
  · next found hfound =>
    cases hreal
    exact hfound
  · cases hreal

/-! ## Reading -/

/-- `readBytes` returns the bytes of a regular file, or the system refuses. -/
theorem readBytes_cases {h : Host} {p : String} (hp : '\x00' ∉ p.toList) :
    (∃ data, h.readBytes p = .ok data ∧ h.isFile p = true) ∨
      ∃ e, h.readBytes p = .error (refusal e p) := by
  unfold readBytes isFile node? real?
  rw [if_neg hp, if_neg hp]
  cases h.locate p true with
  | error e => exact .inr ⟨e, rfl⟩
  | ok place =>
    cases place with
    | free folder name => exact .inr ⟨.notFound, rfl⟩
    | found names =>
      simp only [Option.bind_eq_bind, Option.bind_some]
      cases h.files.at? names with
      | none => exact .inr ⟨.notFound, rfl⟩
      | some n =>
        cases n with
        | file content =>
          cases content with
          | bytes data => exact .inl ⟨data, rfl, rfl⟩
          | module kind => exact .inl ⟨[], rfl, rfl⟩
        | folder entries => exact .inr ⟨.isAFolder, rfl⟩
        | link target => exact .inr ⟨.notFound, rfl⟩

theorem refusal_kind (e : SystemError) (p : String) : (refusal e p).kind ≠ .value := by
  cases e <;> exact FaultKind.noConfusion

/-- `readText` returns the text of a regular file, and it never fails with a value error on a path without a
null character. -/
theorem readText_cases {h : Host} {p : String} (hp : '\x00' ∉ p.toList) :
    (∃ text, h.readText p = .ok text ∧ h.isFile p = true) ∨
      ∃ f, h.readText p = .error f ∧ f.kind ≠ .value := by
  unfold readText
  rcases readBytes_cases hp with ⟨data, hdata, hfile⟩ | ⟨e, he⟩
  · rw [hdata]
    simp only [bind, Except.bind]
    cases Text.decode data with
    | ok text => exact .inl ⟨text, rfl, hfile⟩
    | error e => exact .inr ⟨.raised .decode e.text, rfl, FaultKind.noConfusion⟩
  · rw [he]
    exact .inr ⟨_, rfl, refusal_kind e p⟩

/-- A host with the one file `/main.py`. -/
def withMain (data : Text.Bytes) : Host := ⟨.folder [("main.py", .file (.bytes data))], [], "/home/user", []⟩

end Host

end Polyscan
