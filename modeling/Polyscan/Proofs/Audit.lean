import Mathlib.Algebra.Ring.Int.Defs
import Mathlib.Algebra.Ring.Nat
import Polyscan.Audit
import Polyscan.Proofs.FileTree
import Polyscan.Proofs.Host
import Polyscan.Proofs.Json.Notation

/-!
`logAll` followed by `read`. The line of an entry is ASCII without a line end, so the lines of the file are
the lines that were written, and each of them parses to the record of its entry (`records_contents`). The file
is missing, appended to or refused alike for all calls (`logAll_of_absent`).
-/
namespace Polyscan

/-! ## Files that grow at their end -/

namespace Host

/-- The path is that of a file with the bytes `data`. -/
def Holds (h : Host) (p : String) (data : Text.Bytes) : Prop :=
  '\x00' ∉ p.toList ∧ ∃ names, h.locate p true = .ok (.found names) ∧
    h.files.at? names = some (.file (.bytes data))

/-- The path is that of no file, and `append` creates one there. -/
def Vacant (h : Host) (p : String) : Prop :=
  '\x00' ∉ p.toList ∧ ∃ folder name, h.locate p true = .ok (.free folder name)

variable {h : Host} {p : String}

theorem Holds.readBytes {data : Text.Bytes} (hp : h.Holds p data) : h.readBytes p = .ok data := by
  obtain ⟨hzero, names, hlocate, hfile⟩ := hp
  rw [Host.readBytes, if_neg hzero, hlocate]
  simp only [hfile]

/-- A file that is overwritten holds the new bytes. -/
theorem holds_setAt {names : List String} {content : FileContent} (hzero : '\x00' ∉ p.toList)
    (hlocate : h.locate p true = .ok (.found names)) (hfile : h.files.at? names = some (.file content))
    (data : Text.Bytes) :
    ({ h with files := h.files.setAt (some (.file (.bytes data))) names } : Host).Holds p data := by
  refine ⟨hzero, names, ?_, Node.at?_setAt (Node.takesFile_of_file hfile) _⟩
  have hlook : (h.files.setAt (some (.file (.bytes data))) names).look = h.files.look := by
    funext place
    rw [Node.look_setAt (Node.takesFile_of_file hfile)]
    by_cases hplace : place = names
    · rw [if_pos hplace, hplace, Node.look, hfile]
      rfl
    · rw [if_neg hplace]
  rw [locate_eq_ok_iff] at hlocate ⊢
  rw [Node.walk_congr hlook]
  exact hlocate

/-- `append` on a file keeps its bytes in front. -/
theorem Holds.append {old : Text.Bytes} (hp : h.Holds p old) (data : Text.Bytes) :
    ∃ h', h.append p data = .ok h' ∧ h'.Holds p (old ++ data) := by
  obtain ⟨hzero, names, hlocate, hfile⟩ := hp
  refine ⟨_, ?_, holds_setAt hzero hlocate hfile (old ++ data)⟩
  rw [Host.append, if_neg hzero, hlocate]
  simp only [hfile]

/-- `append` on a vacant path creates the file. -/
theorem Vacant.append (hp : h.Vacant p) (data : Text.Bytes) :
    ∃ h', h.append p data = .ok h' ∧ h'.Holds p data := by
  obtain ⟨hzero, folder, name, hlocate⟩ := hp
  obtain ⟨hlimits, hwalk⟩ := locate_eq_ok_iff.mp hlocate
  obtain ⟨entries, hfolder, hname⟩ := Node.walk_free hwalk
  refine ⟨{ h with files := h.files.setAt (some (.file (.bytes data))) (folder ++ [name]) }, ?_, hzero,
    folder ++ [name], locate_eq_ok_iff.mpr ⟨hlimits, Node.walk_new hwalk _⟩,
    Node.at?_setAt (Node.takesFile_of_free hfolder hname) _⟩
  rw [Host.append, if_neg hzero, hlocate]

/-- If a file is missing, its path is vacant or `append` is refused for all data. -/
theorem vacant_or_refused {f : Fault} (hmissing : h.readBytes p = .error f)
    (hkind : f.kind = .fileNotFound) :
    h.Vacant p ∨ ∀ data, ∃ e, h.append p data = .error (refusal e p) := by
  unfold Host.readBytes at hmissing
  unfold Vacant Host.append
  split at hmissing
  · cases hmissing
    cases hkind
  · next hzero =>
    simp only [if_neg hzero]
    cases hlocate : h.locate p true with
    | error e => exact .inr fun data => ⟨e, rfl⟩
    | ok place =>
      cases place with
      | free folder name => exact .inl ⟨hzero, folder, name, rfl⟩
      | found names =>
        rw [hlocate] at hmissing
        refine .inr fun data => ?_
        simp only at hmissing ⊢
        cases hnode : h.files.at? names with
        | none => exact ⟨.isAFolder, rfl⟩
        | some n =>
          rw [hnode] at hmissing
          cases n with
          | file content => cases content <;> cases hmissing
          | folder entries => exact ⟨.isAFolder, rfl⟩
          | link target => exact ⟨.isAFolder, rfl⟩

/-- The bytes after `append` are the old ones followed by the new ones, or the new ones alone where there was
no file. -/
theorem readBytes_of_append {h' : Host} {data : Text.Bytes} (happend : h.append p data = .ok h') :
    (∃ old, h.readBytes p = .ok old ∧ h'.readBytes p = .ok (old ++ data)) ∨
      h.Vacant p ∧ h'.readBytes p = .ok data := by
  have hwhole := happend
  unfold append at happend
  split at happend
  · cases happend
  next hzero =>
  split at happend
  · cases happend
  · next folder name hlocate =>
    have hvacant : h.Vacant p := ⟨hzero, folder, name, hlocate⟩
    obtain ⟨h'', hmade, hholds⟩ := hvacant.append data
    cases hwhole.symm.trans hmade
    exact .inr ⟨hvacant, hholds.readBytes⟩
  · next names hlocate =>
    refine .inl ?_
    split at happend
    · next old hfile =>
      cases happend
      refine ⟨old, Holds.readBytes ⟨hzero, names, hlocate, hfile⟩, ?_⟩
      exact (holds_setAt hzero hlocate hfile _).readBytes
    · next module hfile =>
      cases happend
      refine ⟨[], ?_, (holds_setAt hzero hlocate hfile _).readBytes⟩
      rw [Host.readBytes, if_neg hzero, hlocate]
      simp only [hfile]
    · cases happend

theorem Vacant.readBytes (hp : h.Vacant p) : h.readBytes p = .error (refusal .notFound p) := by
  obtain ⟨hzero, folder, name, hlocate⟩ := hp
  rw [Host.readBytes, if_neg hzero, hlocate]

theorem isRefusal_refusal (e : SystemError) (p : String) : AuditTrail.isRefusal (refusal e p) = true := by
  cases e <;> rfl

end Host

/-! ## Entries as records -/

/-- Different literals are different texts of any kind. -/
theorem IsText.ofString_injective {τ : Type} [IsText τ] :
    Function.Injective (IsText.ofString : String → τ) := by
  intro s t h
  have hpoints := congrArg IsText.points h
  rw [IsText.points_ofString, IsText.points_ofString] at hpoints
  have hchars := congrArg (List.map CodePoint.toChar) hpoints
  have hid : CodePoint.toChar ∘ CodePoint.ofChar = id := funext CodePoint.toChar_ofChar
  exact String.toList_inj.mp (by simpa [hid] using hchars)

@[simp] theorem IsText.ofString_inj {τ : Type} [IsText τ] {s t : String} :
    (IsText.ofString s : τ) = IsText.ofString t ↔ s = t :=
  IsText.ofString_injective.eq_iff

namespace AuditEntry

variable {τ : Type}

/-- The integer has at most `digitLimit` digits. -/
def hasNumeral (n : Int) : Bool := decide ((Nat.toDigits 10 n.natAbs).length ≤ digitLimit)

theorem hasNumeral_iff {n : Int} : hasNumeral n = true ↔ n.natAbs < 10 ^ digitLimit := by
  rw [hasNumeral, decide_eq_true_eq, Nat.length_toDigits_le_iff (by decide) (by decide)]

/-- All counts of the entry have a numeral. -/
def isWritable (e : AuditEntry τ) : Bool := (e.violations :: e.byEngine.values).all hasNumeral

theorem mapM_numeral (counts : List Int) :
    (counts.all hasNumeral = true ∧ ∃ texts, counts.mapM numeral = .ok texts) ∨
      counts.all hasNumeral = false ∧ ∃ f, counts.mapM numeral = .error f := by
  induction counts with
  | nil => exact .inl ⟨rfl, [], rfl⟩
  | cons n rest ih =>
    rw [List.all_cons, List.mapM_cons, hasNumeral, numeral]
    by_cases hn : (Nat.toDigits 10 n.natAbs).length ≤ digitLimit
    · rw [if_pos hn, decide_eq_true hn]
      rcases ih with ⟨hrest, texts, htexts⟩ | ⟨hrest, f, hf⟩
      · rw [htexts]
        exact .inl ⟨hrest, _, rfl⟩
      · rw [hf]
        exact .inr ⟨hrest, f, rfl⟩
    · rw [if_neg hn, decide_eq_false hn]
      exact .inr ⟨rfl, _, rfl⟩

variable [IsText τ]

/-- No text of the entry has a high surrogate followed by a low one. -/
structure IsPairless (e : AuditEntry τ) : Prop where
  runId : Json.Pairless e.runId
  engines : ∀ name ∈ e.engines, Json.Pairless name
  byEngine : ∀ name ∈ e.byEngine.keys, Json.Pairless name
  failed : ∀ name ∈ e.failed, Json.Pairless name

/-- A `String` has no surrogates. -/
theorem isPairless_string (e : AuditEntry) : e.IsPairless where
  runId := Json.pairless_string _
  engines name _ := Json.pairless_string name
  byEngine name _ := Json.pairless_string name
  failed name _ := Json.pairless_string name

theorem line_of_isWritable {e : AuditEntry τ} (he : e.isWritable = true) (timestamp : String) :
    e.line timestamp = .ok ((e.record timestamp).render ++ "\n") := by
  rcases mapM_numeral (e.violations :: e.byEngine.values) with ⟨-, texts, htexts⟩ | ⟨hall, -⟩
  · rw [line, htexts]
    rfl
  · rw [isWritable, hall] at he
    cases he

theorem line_of_not_isWritable {e : AuditEntry τ} (he : e.isWritable = false) (timestamp : String) :
    ∃ f, e.line timestamp = .error f := by
  rcases mapM_numeral (e.violations :: e.byEngine.values) with ⟨hall, -⟩ | ⟨-, f, hf⟩
  · rw [isWritable, hall] at he
    cases he
  · rw [line, hf]
    exact ⟨f, rfl⟩

theorem notableItems_strings {texts : List τ} (h : ∀ t ∈ texts, Json.Pairless t) :
    Json.NotableItems (texts.map .str) := by
  induction texts with
  | nil => trivial
  | cons t rest ih => exact ⟨h t List.mem_cons_self, ih fun u hu => h u (List.mem_cons_of_mem t hu)⟩

theorem notableFields_counts {counts : List (τ × Int)} (hnames : ∀ name ∈ counts.map Prod.fst, Json.Pairless name)
    (h : ∀ c ∈ counts, (Nat.toDigits 10 c.2.natAbs).length ≤ digitLimit) :
    Json.NotableFields (counts.map fun c => (c.1, .int c.2)) := by
  induction counts with
  | nil => trivial
  | cons c rest ih =>
    rw [List.map_cons, List.forall_mem_cons] at hnames
    exact ⟨hnames.1, h c List.mem_cons_self, ih hnames.2 fun d hd => h d (List.mem_cons_of_mem c hd)⟩

/-- The record of an entry survives `render` and `read` if its counts are numerals, its duration reads back
and its texts are pairless. -/
theorem notable_record {e : AuditEntry τ} (he : e.isWritable = true) (hduration : Json.ReadsBack e.duration)
    (hpairless : e.IsPairless) (timestamp : String) : Json.Notable (e.record timestamp) := by
  have hcounts := List.all_eq_true.mp he
  simp only [hasNumeral, decide_eq_true_eq] at hcounts
  have hengines : ∀ c ∈ e.byEngine.entries, (Nat.toDigits 10 c.2.natAbs).length ≤ digitLimit := by
    intro c hc
    exact hcounts c.2 (List.mem_cons_of_mem _ (List.mem_map.mpr ⟨c, hc, rfl⟩))
  have hnames : (((IsText.ofString "timestamp", Json.str (IsText.ofString timestamp)) :: e.fields).map
      Prod.fst).Nodup := by
    simp [fields]
  have hname : ∀ name, Json.Pairless (IsText.ofString name : τ) := Json.pairless_ofString
  exact ⟨hnames, hname _, hname _, hname _, hpairless.runId, hname _, notableItems_strings hpairless.engines,
    hname _, hcounts _ List.mem_cons_self, hname _,
    ⟨(e.byEngine.mapValues Json.int).distinct, notableFields_counts hpairless.byEngine hengines⟩,
    hname _, notableItems_strings hpairless.failed, hname _, hduration, trivial⟩

end AuditEntry

/-! ## The text of a trail -/

/-- A call of `write`: the time and the entry. -/
structure AuditCall (τ : Type := String) where
  time : String
  entry : AuditEntry τ
  deriving DecidableEq, Repr, Inhabited

/-- The record that the call writes. -/
def AuditCall.record {τ : Type} [IsText τ] (c : AuditCall τ) : Json τ := c.entry.record c.time

namespace AuditTrail

variable {τ : Type} [IsText τ]

/-- The text that a list of calls writes. -/
def contents (calls : List (AuditCall τ)) : List Char :=
  (calls.map fun c => c.record.write).flatMap (· ++ ['\n'])

theorem isPlain_of_mem_records {calls : List (AuditCall τ)} :
    ∀ l ∈ calls.map (fun c => c.record.write), ∀ c ∈ l, Text.IsPlain c := by
  intro l hl
  obtain ⟨c, -, rfl⟩ := List.mem_map.mp hl
  exact Json.isPlain_of_mem_write c.record

theorem mem_contents {calls : List (AuditCall τ)} {c : Char} (h : c ∈ contents calls) :
    Text.IsPlain c ∨ c = '\n' := by
  obtain ⟨l, hl, hc⟩ := List.mem_flatMap.mp h
  rcases List.mem_append.mp hc with hc | hc
  · exact .inl (isPlain_of_mem_records l hl c hc)
  · exact .inr (List.mem_singleton.mp hc)

/-- The lines of `contents`, decoded from UTF-8, are the rendered records. -/
theorem lines_contents (calls : List (AuditCall τ)) :
    Text.decode (Text.encode (String.ofList (contents calls))) = .ok (contents calls) ∧
      Text.lines (String.ofList (Text.uniformNewlines (contents calls))) =
        calls.map fun c => c.record.render := by
  have hascii : ∀ c ∈ contents calls, c.toNat < 128 := by
    intro c hc
    rcases mem_contents hc with ⟨-, hc⟩ | rfl
    · omega
    · decide
  have hreturn : '\r' ∉ contents calls := by
    intro hc
    rcases mem_contents hc with hc | hc
    · exact Text.isPlain_ne_return hc rfl
    · cases hc
  refine ⟨Text.decode_encode hascii, ?_⟩
  rw [Text.uniformNewlines_eq_self hreturn, contents, Text.lines_flatMap isPlain_of_mem_records,
    List.map_map]
  rfl

/-- A line with a character that is not blank is not blank. -/
theorem trim_of_mem {c : Char} (hc : Text.isBlank c.toNat = false) {s : List Char} (hmem : c ∈ s) :
    (Text.trim (String.ofList s)).isEmpty = false := by
  cases hempty : (Text.trim (String.ofList s)).isEmpty with
  | false => rfl
  | true =>
    rw [String.isEmpty_iff, Text.trim, String.toList_ofList, Text.trimChars, Text.dropEnd] at hempty
    have hstart := List.dropWhile_eq_nil_iff.mp
      (List.reverse_eq_nil_iff.mp (String.ofList_eq_empty_iff.mp hempty))
    -- nothing would be left from the first character on that is not blank
    have hblank : ∀ d ∈ s, Text.isBlank d.toNat = true := by
      intro d hd
      have hparts := List.takeWhile_append_dropWhile (p := fun d : Char => Text.isBlank d.toNat) (l := s)
      rw [← hparts, List.mem_append] at hd
      rcases hd with hd | hd
      · exact List.mem_takeWhile_imp (p := fun d : Char => Text.isBlank d.toNat) hd
      · exact hstart d (List.mem_reverse.mpr hd)
    rw [hblank c hmem] at hc
    cases hc

section

variable [DecidableEq τ]

/-- The line of an object parses to the object. -/
theorem record?_render {fields : List (τ × Json τ)} (h : Json.Notable (.obj fields)) :
    record? (Json.render (.obj fields)) = .ok (some (.obj fields)) := by
  have htrim : (Text.trim (Json.render (.obj fields))).isEmpty = false :=
    trim_of_mem (c := '\x7b') (by rfl) List.mem_cons_self
  rw [record?, htrim, Json.render, String.toList_ofList, Json.read_write h]
  rfl

/-- The records of `contents` are the records of the calls. -/
theorem records_contents {calls : List (AuditCall τ)} (hcalls : ∀ c ∈ calls, Json.Notable c.record) :
    records (contents calls) = .ok (calls.map AuditCall.record) := by
  have hlines : (calls.map fun c => c.record.render).mapM record? =
      .ok (calls.map fun c => some c.record) := by
    induction calls with
    | nil => rfl
    | cons c rest ih =>
      have hc : record? c.record.render = .ok (some c.record) :=
        record?_render (hcalls c List.mem_cons_self)
      rw [List.map_cons, List.mapM_cons, hc, ih fun d hd => hcalls d (List.mem_cons_of_mem c hd)]
      rfl
  rw [records, (lines_contents calls).2, hlines]
  simp [bind, Except.bind, pure, Except.pure, List.filterMap_map]

theorem isOfRun_record (id : τ) (c : AuditCall τ) :
    isOfRun id c.record = .ok (decide (c.entry.runId = id)) := by
  simp [AuditCall.record, AuditEntry.record, AuditEntry.fields, isOfRun, OrderedMap.find]

theorem ofRun_records (id : τ) (calls : List (AuditCall τ)) :
    ofRun id (calls.map AuditCall.record) =
      .ok ((calls.filter fun c => c.entry.runId = id).map AuditCall.record) := by
  induction calls with
  | nil => rfl
  | cons c rest ih =>
    rw [List.map_cons, ofRun, isOfRun_record, ih, List.filter_cons]
    by_cases hc : c.entry.runId = id <;> simp [hc, bind, Except.bind, pure, Except.pure]

/-! ## The newest records -/

/-- The last `count` of a list, or all of them where there are no more. -/
def Newest {α : Type} (count : Nat) (l newest : List α) : Prop :=
  newest <:+ l ∧ newest.length = min count l.length

theorem newest_recent {α : Type} {count : Nat} (hcount : 1 ≤ count) (l : List α) :
    Newest count l (recent count l) := by
  have hpos : (0 : Int) < count := by omega
  rw [recent, if_pos hpos, Int.toNat_natCast]
  refine ⟨List.drop_suffix _ _, ?_⟩
  rw [List.length_drop]
  omega

/-- `read` of a file with the `contents` of a list of calls: the newest of their records, or of those with one
run id. -/
theorem read_of_holds {t : AuditTrail} {h : Host} {calls : List (AuditCall τ)}
    (hh : h.Holds t.path (Text.encode (String.ofList (contents calls))))
    (hcalls : ∀ c ∈ calls, Json.Notable c.record) {count : Nat} (hcount : 1 ≤ count) :
    (∃ newest, t.read h count none = .ok newest ∧ Newest count (calls.map AuditCall.record) newest) ∧
      ∀ id, ∃ newest, t.read h count (some id) = .ok newest ∧
        Newest count ((calls.filter fun c => c.entry.runId = id).map AuditCall.record) newest := by
  have htext : h.readText t.path = .ok (contents calls) := by
    rw [Host.readText, hh.readBytes]
    simp [bind, Except.bind, (lines_contents calls).1, pure, Except.pure]
  unfold AuditTrail.read
  rw [htext]
  simp only [records_contents hcalls, bind, Except.bind, pure, Except.pure, ofRun_records]
  exact ⟨⟨_, rfl, newest_recent hcount _⟩, fun id => ⟨_, rfl, newest_recent hcount _⟩⟩

/-- `read` of a missing file is empty. -/
theorem read_of_absent {t : AuditTrail} {h : Host} {f : Fault} (habsent : h.readBytes t.path = .error f)
    (hkind : f.kind = .fileNotFound) (count : Int) (runId : Option τ) :
    t.read h count runId = .ok [] := by
  unfold AuditTrail.read Host.readText
  rw [habsent]
  exact if_pos hkind

end

/-! ## Calls one after another -/

theorem contents_append (calls more : List (AuditCall τ)) :
    contents (calls ++ more) = contents calls ++ contents more := by
  rw [contents, List.map_append, List.flatMap_append]
  rfl

theorem contents_singleton (c : AuditCall τ) :
    String.ofList (contents [c]) = c.record.render ++ "\n" := by
  simp [contents, Json.render, String.ofList_append]

/-- One more call appends its line to the bytes. -/
theorem encode_contents_concat (calls : List (AuditCall τ)) (c : AuditCall τ) :
    Text.encode (String.ofList (contents (calls ++ [c]))) =
      Text.encode (String.ofList (contents calls)) ++ Text.encode (c.record.render ++ "\n") := by
  rw [contents_append, String.ofList_append, Text.encode_append, contents_singleton]

theorem write_of_not_isWritable {t : AuditTrail} {h : Host} {c : AuditCall τ}
    (hc : c.entry.isWritable = false) : ∃ f, t.write h c.time c.entry = .error f := by
  obtain ⟨f, hf⟩ := AuditEntry.line_of_not_isWritable hc c.time
  exact ⟨f, by rw [write, hf]; rfl⟩

theorem write_of_append {t : AuditTrail} {h h' : Host} {c : AuditCall τ} (hc : c.entry.isWritable = true)
    (happend : h.append t.path (Text.encode (c.record.render ++ "\n")) = .ok h') :
    t.write h c.time c.entry = .ok (h', none) := by
  rw [AuditCall.record] at happend
  rw [write, AuditEntry.line_of_isWritable hc]
  simp [bind, Except.bind, happend, pure, Except.pure]

theorem write_of_refused {t : AuditTrail} {h : Host} {c : AuditCall τ} {e : SystemError}
    (hc : c.entry.isWritable = true)
    (happend : h.append t.path (Text.encode (c.record.render ++ "\n")) = .error (Host.refusal e t.path)) :
    ∃ warning, t.write h c.time c.entry = .ok (h, some warning) := by
  rw [AuditCall.record] at happend
  rw [write, AuditEntry.line_of_isWritable hc]
  simp [bind, Except.bind, happend, pure, Except.pure, Host.isRefusal_refusal]

/-- The bytes of the file after `write` are the bytes before and then those of the line. -/
structure Gains (t : AuditTrail) (h h' : Host) (line : List Char) : Prop where
  unbroken : ∀ c ∈ line, Text.IsPlain c
  behind : ∀ old, h.readBytes t.path = .ok old →
    h'.readBytes t.path = .ok (old ++ Text.encode (String.ofList (line ++ ['\n'])))
  alone : ∀ f, h.readBytes t.path = .error f →
    h'.readBytes t.path = .ok (Text.encode (String.ofList (line ++ ['\n'])))

theorem gains_of_append {t : AuditTrail} {h h' : Host} {line : List Char}
    (hplain : ∀ c ∈ line, Text.IsPlain c)
    (happend : h.append t.path (Text.encode (String.ofList (line ++ ['\n']))) = .ok h') :
    t.Gains h h' line where
  unbroken := hplain
  behind old hold := by
    rcases Host.readBytes_of_append happend with ⟨old', hold', hnew⟩ | ⟨hvacant, -⟩
    · cases hold.symm.trans hold'
      exact hnew
    · rw [hvacant.readBytes] at hold
      cases hold
  alone f hf := by
    rcases Host.readBytes_of_append happend with ⟨old, hold, -⟩ | ⟨-, hnew⟩
    · rw [hold] at hf
      cases hf
    · exact hnew

/-- `write` returns only for a writable entry. It appends the line, or it leaves the host unchanged and
returns a warning. -/
theorem write_cases {t : AuditTrail} {h h' : Host} {time : String} {e : AuditEntry τ} {note : Option String}
    (hwrite : t.write h time e = .ok (h', note)) :
    e.isWritable = true ∧
      ((note = none ∧
          h.append t.path (Text.encode (String.ofList ((e.record time).write ++ ['\n']))) = .ok h') ∨
        note ≠ none ∧ h' = h ∧
          ∃ f, h.append t.path (Text.encode (String.ofList ((e.record time).write ++ ['\n']))) = .error f) := by
  have hwritable : e.isWritable = true := by
    cases he : e.isWritable with
    | true => rfl
    | false =>
      obtain ⟨f, hf⟩ := write_of_not_isWritable (t := t) (h := h) (c := ⟨time, e⟩) he
      rw [hf] at hwrite
      cases hwrite
  have hline : (e.record time).render ++ "\n" = String.ofList ((e.record time).write ++ ['\n']) := by
    rw [Json.render, String.ofList_append]
  refine ⟨hwritable, ?_⟩
  rw [write, AuditEntry.line_of_isWritable hwritable, hline] at hwrite
  simp only [bind, Except.bind] at hwrite
  split at hwrite
  · next grown happend =>
    cases hwrite
    exact .inl ⟨rfl, happend⟩
  · next f happend =>
    split at hwrite
    · cases hwrite
      exact .inr ⟨by simp, rfl, f, happend⟩
    · cases hwrite

/-- The host after a list of calls, and the calls among them whose line was appended. A call that raises or is
refused leaves the host unchanged. -/
def logAll (t : AuditTrail) (h : Host) : List (AuditCall τ) → Host × List (AuditCall τ)
  | [] => (h, [])
  | c :: rest =>
    match t.write h c.time c.entry with
    | .ok (h', none) => ((t.logAll h' rest).1, c :: (t.logAll h' rest).2)
    | .ok (h', some _) => t.logAll h' rest
    | .error _ => t.logAll h rest

theorem logAll_cons {t : AuditTrail} {h h' : Host} {c : AuditCall τ}
    (hwrite : t.write h c.time c.entry = .ok (h', none)) (rest : List (AuditCall τ)) :
    t.logAll h (c :: rest) = ((t.logAll h' rest).1, c :: (t.logAll h' rest).2) := by
  rw [logAll, hwrite]

theorem logAll_cons_of_not_isWritable {t : AuditTrail} {h : Host} {c : AuditCall τ}
    (hc : c.entry.isWritable = false) (rest : List (AuditCall τ)) :
    t.logAll h (c :: rest) = t.logAll h rest := by
  obtain ⟨f, hf⟩ := write_of_not_isWritable (t := t) (h := h) hc
  rw [logAll, hf]

/-- On an existing trail exactly the writable calls are appended. -/
theorem logAll_of_holds {t : AuditTrail} {h : Host} {before : List (AuditCall τ)}
    (hh : h.Holds t.path (Text.encode (String.ofList (contents before)))) (calls : List (AuditCall τ)) :
    (t.logAll h calls).2 = calls.filter (·.entry.isWritable) ∧
      (t.logAll h calls).1.Holds t.path
        (Text.encode (String.ofList (contents (before ++ (t.logAll h calls).2)))) := by
  -- every call that is logged goes over to those before
  induction calls generalizing h before with
  | nil => exact ⟨rfl, by rwa [logAll, List.append_nil]⟩
  | cons c rest ih =>
    cases hc : c.entry.isWritable with
    | false =>
      rw [logAll_cons_of_not_isWritable hc, List.filter_cons_of_neg (by simp [hc])]
      exact ih hh
    | true =>
      obtain ⟨h', happend, hh'⟩ := hh.append (Text.encode (c.record.render ++ "\n"))
      rw [← encode_contents_concat] at hh'
      obtain ⟨hlogged, hlast⟩ := ih hh'
      rw [logAll_cons (write_of_append hc happend), List.filter_cons, hc]
      refine ⟨congrArg _ hlogged, ?_⟩
      rwa [List.append_assoc, List.singleton_append] at hlast

/-- On a vacant path the first writable call creates the trail. -/
theorem logAll_of_vacant {t : AuditTrail} {h : Host} (hh : h.Vacant t.path) (calls : List (AuditCall τ)) :
    (t.logAll h calls).2 = calls.filter (·.entry.isWritable) ∧
      (t.logAll h calls = (h, []) ∨ (t.logAll h calls).1.Holds t.path
        (Text.encode (String.ofList (contents (t.logAll h calls).2)))) := by
  induction calls with
  | nil => exact ⟨rfl, .inl rfl⟩
  | cons c rest ih =>
    cases hc : c.entry.isWritable with
    | false =>
      rw [logAll_cons_of_not_isWritable hc, List.filter_cons_of_neg (by simp [hc])]
      exact ih
    | true =>
      obtain ⟨h', happend, hh'⟩ := hh.append (Text.encode (c.record.render ++ "\n"))
      rw [← contents_singleton] at hh'
      obtain ⟨hlogged, hlast⟩ := logAll_of_holds hh' rest
      rw [logAll_cons (write_of_append hc happend), List.filter_cons, hc]
      exact ⟨congrArg _ hlogged, .inr hlast⟩

/-- If `append` is refused, no call is logged. -/
theorem logAll_of_refused {t : AuditTrail} {h : Host}
    (hh : ∀ data, ∃ e, h.append t.path data = .error (Host.refusal e t.path)) (calls : List (AuditCall τ)) :
    t.logAll h calls = (h, []) := by
  induction calls with
  | nil => rfl
  | cons c rest ih =>
    cases hc : c.entry.isWritable with
    | false =>
      rw [logAll_cons_of_not_isWritable hc]
      exact ih
    | true =>
      obtain ⟨e, he⟩ := hh (Text.encode (c.record.render ++ "\n"))
      obtain ⟨warning, hwrite⟩ := write_of_refused hc he
      rw [logAll, hwrite]
      exact ih

/-- If the file is missing, no call is logged, or all writable ones are. -/
theorem logAll_of_absent {t : AuditTrail} {h : Host} {f : Fault} (habsent : h.readBytes t.path = .error f)
    (hkind : f.kind = .fileNotFound) (calls : List (AuditCall τ)) :
    t.logAll h calls = (h, []) ∨ (t.logAll h calls).2 = calls.filter (·.entry.isWritable) ∧
      (t.logAll h calls).1.Holds t.path
        (Text.encode (String.ofList (contents (t.logAll h calls).2))) := by
  rcases Host.vacant_or_refused habsent hkind with hvacant | hrefused
  · obtain ⟨hlogged, hnothing | hholds⟩ := logAll_of_vacant hvacant calls
    · exact .inl hnothing
    · exact .inr ⟨hlogged, hholds⟩
  · exact .inl (logAll_of_refused hrefused calls)

/-- `logAll` from a missing file on, followed by `read`: the newest `count` records of the calls that were
logged, or of those with one run id. If the file can be created, exactly the writable calls are logged. No
text may have a high surrogate in front of a low one, and durations must read back. -/
theorem read_logAll [DecidableEq τ] {t : AuditTrail} {h : Host} {f : Fault}
    (habsent : h.readBytes t.path = .error f) (hkind : f.kind = .fileNotFound) (calls : List (AuditCall τ))
    (hdurations : ∀ c ∈ calls, Json.ReadsBack c.entry.duration)
    (hpairless : ∀ c ∈ calls, c.entry.IsPairless) {count : Nat} (hcount : 1 ≤ count) :
    (h.Vacant t.path → (t.logAll h calls).2 = calls.filter (·.entry.isWritable)) ∧
      (∃ newest, t.read (t.logAll h calls).1 count none = .ok newest ∧
        Newest count ((t.logAll h calls).2.map AuditCall.record) newest) ∧
      ∀ id, ∃ newest, t.read (t.logAll h calls).1 count (some id) = .ok newest ∧
        Newest count (((t.logAll h calls).2.filter fun c => c.entry.runId = id).map AuditCall.record)
          newest := by
  refine ⟨fun hvacant => (logAll_of_vacant hvacant calls).1, ?_⟩
  -- if the file is still missing, no call was logged and `read` is empty
  rcases logAll_of_absent habsent hkind calls with hnothing | ⟨hlogged, hholds⟩
  · rw [hnothing]
    exact ⟨⟨[], read_of_absent habsent hkind count none, List.suffix_rfl, by simp⟩,
      fun id => ⟨[], read_of_absent habsent hkind count (some id), List.suffix_rfl, by simp⟩⟩
  · refine read_of_holds hholds ?_ hcount
    intro c hc
    rw [hlogged, List.mem_filter] at hc
    exact AuditEntry.notable_record hc.2 (hdurations c hc.1) (hpairless c hc.1) c.time

/-- An entry with a run id and a number of violations. -/
def callFor (runId : WideString) (violations : Int) : AuditCall WideString where
  time := "2024-05-01T12:00:00+00:00"
  entry :=
    { runId, violations
      engines := [IsText.ofString "x\r\ny"]
      byEngine := ⟨[(IsText.ofString "x\r\ny", 2)], by decide⟩
      failed := [IsText.ofString "\x1e"]
      duration := .finite false 0 (-1074) }

/-- Run ids with quotes, line ends and surrogates that make no pair. -/
def brokenNames : List (AuditCall WideString) :=
  [callFor (IsText.ofString "a\n\"\u2028") 2, callFor ⟨[.ofNat 0xde00, .ofNat 0xd83d]⟩ 0]

def emptyHost : Host where
  files := .folder []
  cwd := []
  home := "/"
  users := []

theorem isPairless_callFor {runId : WideString} (h : Json.Pairless runId) (violations : Int) :
    (callFor runId violations).entry.IsPairless where
  runId := h
  engines := List.forall_mem_singleton.mpr (Json.pairless_ofString _)
  byEngine := List.forall_mem_singleton.mpr (Json.pairless_ofString _)
  failed := List.forall_mem_singleton.mpr (Json.pairless_ofString _)

theorem path_audit : (ofPath "/audit.jsonl").path = "/audit.jsonl" := by decide

/-- A file can be created in the root folder. -/
theorem vacant_audit : emptyHost.Vacant (ofPath "/audit.jsonl").path := by
  rw [path_audit]
  exact ⟨by decide, [], "audit.jsonl", rfl⟩

/-- A low surrogate in front of a high one is no pair: both come back, and the `run_id` filter finds them. -/
theorem read_logAll_brokenNames :
    ((ofPath "/audit.jsonl").logAll emptyHost brokenNames).2 = brokenNames ∧
      ∃ newest, (ofPath "/audit.jsonl").read ((ofPath "/audit.jsonl").logAll emptyHost brokenNames).1
          5 (some ⟨[.ofNat 0xde00, .ofNat 0xd83d]⟩) = .ok newest ∧
        Newest 5 ((brokenNames.drop 1).map AuditCall.record) newest := by
  have hdurations : ∀ c ∈ brokenNames, Json.ReadsBack c.entry.duration :=
    List.forall_mem_cons.mpr ⟨by rfl, List.forall_mem_cons.mpr ⟨by rfl, by simp⟩⟩
  have hpairless : ∀ c ∈ brokenNames, c.entry.IsPairless :=
    List.forall_mem_cons.mpr ⟨isPairless_callFor (Json.pairless_ofString _) 2,
      List.forall_mem_cons.mpr ⟨isPairless_callFor (by rfl) 0, by simp⟩⟩
  obtain ⟨hlogged, -, hread⟩ := read_logAll vacant_audit.readBytes rfl brokenNames hdurations hpairless
    (by decide : 1 ≤ 5)
  have hall := hlogged vacant_audit
  refine ⟨hall, ?_⟩
  obtain ⟨newest, hnewest, hlast⟩ := hread ⟨[.ofNat 0xde00, .ofNat 0xd83d]⟩
  rw [hall] at hlast
  exact ⟨newest, hnewest, hlast⟩

/-! ## Entries that do not come back -/

/-- A run id of a high and a low surrogate, and the one character that the two escapes `\ud83d\ude00` stand
for in JSON. -/
def splitPair : WideString := ⟨[.ofNat 0xd83d, .ofNat 0xde00]⟩

def joinedPair : WideString := ⟨[.ofNat 0x1f600]⟩

theorem writeString_splitPair : Json.writeString splitPair = Json.writeString joinedPair := by decide

/-- Both run ids have the same line. -/
theorem write_splitPair (t : AuditTrail) (h : Host) :
    t.write h (callFor splitPair 0).time (callFor splitPair 0).entry =
      t.write h (callFor joinedPair 0).time (callFor joinedPair 0).entry := by
  have hrecord : (callFor splitPair 0).record.write = (callFor joinedPair 0).record.write := by
    simp [callFor, AuditCall.record, AuditEntry.record, AuditEntry.fields, Json.write, Json.writeFields,
      writeString_splitPair]
  have hline : (callFor splitPair 0).entry.line (callFor splitPair 0).time =
      (callFor joinedPair 0).entry.line (callFor joinedPair 0).time := by
    rw [AuditEntry.line_of_isWritable (by rfl), AuditEntry.line_of_isWritable (by rfl)]
    exact congrArg (fun l => Except.ok (String.ofList l ++ "\n")) hrecord
  rw [write, write, hline]

/-- An entry whose run id is a surrogate pair is logged, and `read` with this run id does not find it. An
entry for a folder that does not exist is not written; `write` returns a warning. A count of more than
`digitLimit` digits makes `write` raise. -/
theorem log_loses_entries :
    ((ofPath "/audit.jsonl").logAll emptyHost [callFor splitPair 0]).2 = [callFor splitPair 0] ∧
      (ofPath "/audit.jsonl").read ((ofPath "/audit.jsonl").logAll emptyHost [callFor splitPair 0]).1
        1 (some splitPair) = .ok [] ∧
      (∃ note, (ofPath "/logs/audit.jsonl").write emptyHost (callFor joinedPair 0).time
        (callFor joinedPair 0).entry = .ok (emptyHost, some note)) ∧
      (ofPath "/logs/audit.jsonl").read emptyHost 1 (none : Option WideString) = .ok [] ∧
      ∃ f, (ofPath "/audit.jsonl").write emptyHost (callFor joinedPair (10 ^ digitLimit)).time
        (callFor joinedPair (10 ^ digitLimit)).entry = .error f := by
  have hdurations : ∀ c ∈ [callFor joinedPair 0], Json.ReadsBack c.entry.duration :=
    List.forall_mem_singleton.mpr (by rfl)
  have hpairless : ∀ c ∈ [callFor joinedPair 0], c.entry.IsPairless :=
    List.forall_mem_singleton.mpr (isPairless_callFor (by rfl) 0)
  obtain ⟨h', hwrite⟩ : ∃ h', (ofPath "/audit.jsonl").write emptyHost (callFor joinedPair 0).time
      (callFor joinedPair 0).entry = .ok (h', none) := by
    obtain ⟨h', happend, -⟩ := vacant_audit.append (Text.encode ((callFor joinedPair 0).record.render ++ "\n"))
    exact ⟨h', write_of_append (by rfl) happend⟩
  have hjoined := logAll_cons hwrite []
  have hsplit := logAll_cons ((write_splitPair _ _).trans hwrite) []
  have hlong : AuditEntry.isWritable (callFor joinedPair (10 ^ digitLimit)).entry = false := by
    have hdigits : AuditEntry.hasNumeral (10 ^ digitLimit) = false := by
      rw [← Bool.not_eq_true, AuditEntry.hasNumeral_iff, Int.natAbs_pow]
      simp
    simp [AuditEntry.isWritable, callFor, hdigits]
  refine ⟨?_, ?_, ?_, ?_, write_of_not_isWritable hlong⟩
  · rw [hsplit]
    rfl
  · -- the file is the one that the entry with the character would have made
    obtain ⟨-, -, hread⟩ := read_logAll vacant_audit.readBytes rfl [callFor joinedPair 0] hdurations hpairless
      (Nat.le_refl 1)
    obtain ⟨newest, hnewest, hlast⟩ := hread splitPair
    rw [hjoined] at hnewest hlast
    have hnone : newest = [] := List.suffix_nil.mp hlast.1
    rw [hnone] at hnewest
    rw [hsplit]
    exact hnewest
  · have hpath : (ofPath "/logs/audit.jsonl").path = "/logs/audit.jsonl" := by decide
    refine write_of_refused (e := .notFound) (by rfl) ?_
    rw [hpath]
    rfl
  · have hpath : (ofPath "/logs/audit.jsonl").path = "/logs/audit.jsonl" := by decide
    have habsent : emptyHost.readBytes (ofPath "/logs/audit.jsonl").path =
        .error (Host.refusal .notFound (ofPath "/logs/audit.jsonl").path) := by
      rw [hpath]
      rfl
    exact read_of_absent habsent rfl 1 none

end AuditTrail

end Polyscan
