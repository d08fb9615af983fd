import Polyscan.Proofs.Audit
import Polyscan.Proofs.Json.Fragment

/-!
`write` behind a file of arbitrary content. The line of an entry continues the last line of the file if that
has no line end, and the joined line is JSON only if what stands in front is JSON white space. So
the trail keeps its records and gains the new one if and only if its last line is ended or blank.
-/
namespace Polyscan

namespace Host

/-- The bytes after `append` are the old ones followed by the new ones. -/
theorem readBytes_append {h h' : Host} {p : String} {old data : Text.Bytes} (hread : h.readBytes p = .ok old)
    (happend : h.append p data = .ok h') : h'.readBytes p = .ok (old ++ data) := by
  rcases readBytes_of_append happend with ⟨old', hold, hnew⟩ | ⟨hvacant, -⟩
  · cases hread.symm.trans hold
    exact hnew
  · rw [hvacant.readBytes] at hread
    cases hread

end Host

namespace AuditTrail

variable {τ : Type} [DecidableEq τ] [IsText τ]

/-! ## Records line by line -/

/-- The records on a list of lines. -/
def recordsOn (lines : List (List Char)) : Except Fault (List (Json τ)) := do
  let found ← (lines.map String.ofList).mapM record?
  pure (found.filterMap id)

theorem records_eq (text : List Char) :
    (records text : Except Fault (List (Json τ))) =
      recordsOn (Text.linesFrom [] (Text.uniformNewlines text)) := by
  rw [records, Text.lines, String.toList_ofList]
  rfl

theorem recordsOn_append (ls ms : List (List Char)) :
    (recordsOn (ls ++ ms) : Except Fault (List (Json τ))) = (do
      let first ← recordsOn ls
      let second ← recordsOn ms
      pure (first ++ second)) := by
  rw [recordsOn, List.map_append, List.mapM_append, recordsOn, recordsOn]
  cases (ls.map String.ofList).mapM (record? (τ := τ)) with
  | error f => rfl
  | ok found =>
    cases (ms.map String.ofList).mapM (record? (τ := τ)) with
    | error f => rfl
    | ok more => exact congrArg Except.ok List.filterMap_append

theorem recordsOn_singleton (l : List Char) :
    (recordsOn [l] : Except Fault (List (Json τ))) = (record? (String.ofList l)).map Option.toList := by
  rw [recordsOn, List.map_singleton, List.mapM_cons, List.mapM_nil]
  cases record? (τ := τ) (String.ofList l) with
  | error f => rfl
  | ok found => cases found <;> rfl

theorem recordsOn_last {α : Type} (kept : Except Fault (List α)) (last : Except Fault (Option α)) :
    (do
      let first ← kept
      let second ← last.map Option.toList
      pure (first ++ second)) =
    (do
      let first ← kept
      let second ← last
      pure (first ++ second.toList)) := by
  cases kept with
  | error f => rfl
  | ok first => cases last <;> rfl

/-- The records of a text are those of its ended lines and the one on its last line. -/
theorem records_split (text : List Char) :
    (records text : Except Fault (List (Json τ))) = (do
      let kept ← recordsOn (Text.linesFrom [] (Text.finished text))
      let last ← record? (String.ofList (Text.unfinished text))
      pure (kept ++ last.toList)) := by
  rw [records_eq, ← Text.finished_append_unfinished, Text.linesFrom_finished, recordsOn_append,
    Text.linesFrom_unbroken Text.isLineBreak_of_mem_unfinished]
  cases hlast : Text.unfinished text with
  | nil =>
    have hblank : record? (τ := τ) (String.ofList []) = .ok none := rfl
    rw [hblank]
    exact congrArg (recordsOn _ >>= ·) rfl
  | cons c rest =>
    rw [List.reverse_nil, List.nil_append, List.isEmpty_cons, if_neg Bool.false_ne_true,
      recordsOn_singleton]
    exact recordsOn_last _ _

/-- A plain line behind a text continues the last line of the text. -/
theorem records_append_line (text : List Char) {line : List Char} (hplain : ∀ c ∈ line, Text.IsPlain c)
    (hline : line ≠ []) :
    (records (text ++ (line ++ ['\n'])) : Except Fault (List (Json τ))) = (do
      let kept ← recordsOn (Text.linesFrom [] (Text.finished text))
      let last ← record? (String.ofList (Text.unfinished text ++ line))
      pure (kept ++ last.toList)) := by
  have hreturn : '\r' ∉ line ++ ['\n'] := by
    rw [List.mem_append, not_or]
    exact ⟨fun hc => Text.isPlain_ne_return (hplain _ hc) rfl, by decide⟩
  have hhead : (line ++ ['\n']).head? ≠ some '\n' := by
    cases line with
    | nil => exact absurd rfl hline
    | cons c rest =>
      rintro ⟨⟩
      exact absurd (hplain '\n' List.mem_cons_self) (by decide)
  have hunbroken : ∀ c ∈ Text.unfinished text ++ line, Text.isLineBreak c = false :=
    List.forall_mem_append.mpr ⟨Text.isLineBreak_of_mem_unfinished, fun c hc =>
      Text.isLineBreak_plain (hplain c hc)⟩
  rw [records_eq, Text.uniformNewlines_append text hhead, Text.uniformNewlines_eq_self hreturn,
    ← Text.finished_append_unfinished, List.append_assoc, Text.linesFrom_finished, recordsOn_append,
    ← List.append_assoc, Text.linesFrom_newline hunbroken]
  rw [List.reverse_nil, List.nil_append, Text.linesFrom, List.isEmpty_nil, if_pos rfl, recordsOn_singleton]
  exact recordsOn_last _ _

/-! ## The line of an entry -/

theorem isBlank_of_isSpace {c : Char} (hc : Json.isSpace c = true) : Text.isBlank c.toNat = true := by
  simp only [Json.isSpace, Bool.or_eq_true, beq_iff_eq] at hc
  rcases hc with ((rfl | rfl) | rfl) | rfl <;> rfl

/-- The line of an entry begins with the key of its time. -/
theorem write_record {σ : Type} [IsText σ] (e : AuditEntry σ) (time : String) :
    ∃ body, (e.record time).write = Json.objectText 't' body := by
  have hname : Json.writeString (IsText.ofString "timestamp" : σ) = "\"timestamp\"".toList := by
    rw [Json.writeString, IsText.points_ofString]
    decide
  rw [AuditEntry.record, AuditEntry.fields, Json.write, Json.writeFields, hname]
  · exact ⟨_, rfl⟩
  · simp

/-- JSON white space in front of the line of an object is passed over. -/
theorem record?_spaces {fields : List (τ × Json τ)} (h : Json.Notable (.obj fields)) {p : List Char}
    (hp : Json.skipSpace p = []) :
    record? (String.ofList (p ++ Json.write (.obj fields))) = .ok (some (.obj fields)) := by
  have htrim : (Text.trim (String.ofList (p ++ Json.write (.obj fields)))).isEmpty = false :=
    trim_of_mem (c := '\x7b') (by rfl) (List.mem_append_right p List.mem_cons_self)
  rw [record?, htrim, String.toList_ofList, Json.read_spaces hp h]
  rfl

/-- A line of JSON white space has no record. -/
theorem record?_blank {p : List Char} (hp : ∀ c ∈ p, Json.isSpace c = true) :
    record? (τ := τ) (String.ofList p) = .ok none := by
  have htrim : (Text.trim (String.ofList p)).isEmpty = true := by
    have hblank : p.dropWhile (fun c => Text.isBlank c.toNat) = [] :=
      List.dropWhile_eq_nil_iff.mpr fun c hc => isBlank_of_isSpace (hp c hc)
    rw [Text.trim, String.toList_ofList, Text.trimChars, hblank]
    rfl
  rw [record?, if_pos htrim]

/-- If a line ends with the text of an object and has a record, white space is all that stands in front of the
object. -/
theorem skipSpace_of_record? {p line : List Char} {c : Char} {body : List Char} {r : Json τ}
    (hline : line = Json.objectText c body) (hlast : Json.IsLastObject τ c body)
    (h : record? (String.ofList (p ++ line)) = .ok (some r)) : Json.skipSpace p = [] := by
  rw [record?, String.toList_ofList, hline] at h
  split at h
  · cases h
  cases hread : Json.read (τ := τ) (p ++ Json.objectText c body) with
  | error e =>
    obtain ⟨problem, remaining⟩ := e
    rw [hread] at h
    cases problem <;> cases h
  | ok v => exact Json.isSpace_of_read hlast hread

/-- All records of a trail. The slice from `-0` on leaves none out. -/
def all (t : AuditTrail) (h : Host) : Except Fault (List (Json τ)) := t.read h 0 none

/-- The filter by run id and the slice. -/
def pick (count : Int) (runId : Option τ) (found : List (Json τ)) :
    Except Fault (List (Json τ)) :=
  match runId with
  | none => pure (recent count found)
  | some id => do pure (recent count (← ofRun id found))

theorem all_of_text {t : AuditTrail} {h : Host} {text : List Char} (htext : h.readText t.path = .ok text) :
    (t.all h : Except Fault (List (Json τ))) = records text := by
  rw [all, AuditTrail.read, htext]
  dsimp only
  cases records (τ := τ) text <;> rfl

/-- `read` is `pick` on the records of the trail. -/
theorem read_eq (t : AuditTrail) (h : Host) (count : Int) (runId : Option τ) :
    t.read h count runId = t.all h >>= pick count runId := by
  cases htext : h.readText t.path with
  | error f =>
    rw [all, AuditTrail.read, AuditTrail.read, htext]
    dsimp only
    split
    · cases runId <;> simp [pick, recent, ofRun, bind, Except.bind, pure, Except.pure]
    · rfl
  | ok text =>
    rw [all_of_text htext, AuditTrail.read, htext]
    rfl

/-- The records after `write`: those of the ended lines, and the one on the joined last line. -/
theorem all_write {t : AuditTrail} {h h' : Host} {text : List Char} (htext : h.readText t.path = .ok text)
    {time : String} {e : AuditEntry τ} (hwrite : t.write h time e = .ok (h', none)) :
    e.isWritable = true ∧ (t.all h' : Except Fault (List (Json τ))) = (do
      let kept ← recordsOn (Text.linesFrom [] (Text.finished text))
      let last ← record? (String.ofList (Text.unfinished text ++ (e.record time).write))
      pure (kept ++ last.toList)) := by
  obtain ⟨hwritable, hcases⟩ := write_cases hwrite
  have happend : h.append t.path (Text.encode (String.ofList ((e.record time).write ++ ['\n']))) = .ok h' := by
    rcases hcases with ⟨-, happend⟩ | ⟨hwarned, -⟩
    · exact happend
    · exact absurd rfl hwarned
  refine ⟨hwritable, ?_⟩
  obtain ⟨data, hdata, hdecode⟩ : ∃ data, h.readBytes t.path = .ok data ∧ Text.decode data = .ok text := by
    rw [Host.readText] at htext
    obtain ⟨data, hdata, htext⟩ := Json.exists_of_bind_eq_ok htext
    refine ⟨data, hdata, ?_⟩
    split at htext
    · next hdecode =>
      cases htext
      exact hdecode
    · cases htext
  have hplain := Json.isPlain_of_mem_write (e.record time)
  have hascii : ∀ c ∈ (e.record time).write ++ ['\n'], c.toNat < 128 := by
    refine List.forall_mem_append.mpr ⟨fun c hc => ?_, List.forall_mem_singleton.mpr (by decide)⟩
    obtain ⟨-, hc⟩ := hplain c hc
    omega
  have htext' : h'.readText t.path = .ok (text ++ ((e.record time).write ++ ['\n'])) := by
    rw [Host.readText, Host.readBytes_append hdata happend]
    simp only [bind, Except.bind, Text.decode_append hdecode hascii]
    rfl
  rw [all_of_text htext', records_append_line text hplain (List.cons_ne_nil _ _)]

theorem records_finished (text : List Char) :
    (records (Text.finished text) : Except Fault (List (Json τ))) =
      recordsOn (Text.linesFrom [] (Text.finished text)) := by
  rw [records_eq, Text.uniformNewlines_eq_self (Text.return_notMem_finished text)]

/-- If more than white space follows the last line end, the records after `write` are those of the ended
lines. -/
theorem all_write_unfinished {t : AuditTrail} {h h' : Host} {text : List Char}
    (htext : h.readText t.path = .ok text) {time : String} {e : AuditEntry τ}
    (hduration : Json.ReadsBack e.duration) (hpairless : e.IsPairless)
    (hwrite : t.write h time e = .ok (h', none))
    (hopen : ∃ c ∈ Text.unfinished text, Json.isSpace c = false) {new : List (Json τ)}
    (hnew : t.all h' = .ok new) :
    records (Text.finished text) = .ok new ∧ ∀ old, t.all h = .ok old → new <+: old := by
  obtain ⟨c, hc, hspace⟩ := hopen
  obtain ⟨hwritable, hall⟩ := all_write htext hwrite
  have hnotable := AuditEntry.notable_record hwritable hduration hpairless time
  rw [hall] at hnew
  obtain ⟨kept, hkept, hnew⟩ := Json.exists_of_bind_eq_ok hnew
  obtain ⟨last, hlast, hnew⟩ := Json.exists_of_bind_eq_ok hnew
  cases hnew
  cases last with
  | some r =>
    obtain ⟨body, hwritten⟩ := write_record e time
    have hskip := skipSpace_of_record? hwritten
      (Json.isLastObject_of_write hnotable hwritten (by decide)) hlast
    rw [List.dropWhile_eq_nil_iff.mp hskip c hc] at hspace
    cases hspace
  | none =>
    rw [Option.toList_none, List.append_nil]
    refine ⟨(records_finished text).trans hkept, fun old hold => ?_⟩
    rw [all_of_text htext, records_split] at hold
    obtain ⟨first, hfirst, hold⟩ := Json.exists_of_bind_eq_ok hold
    obtain ⟨last, -, hold⟩ := Json.exists_of_bind_eq_ok hold
    rw [hkept] at hfirst
    cases hfirst
    cases hold
    exact List.prefix_append _ _

/-- `write` behind an existing text. If only white space follows the last line end, every later `read` picks
from the old records and then the new one. Otherwise the entry continues the open line: the records are then
those of the ended lines, and neither the entry nor a record on the open line is found. -/
theorem write_extends {t : AuditTrail} {h h' : Host} {text : List Char} (htext : h.readText t.path = .ok text)
    {time : String} {e : AuditEntry τ} (hduration : Json.ReadsBack e.duration)
    (hpairless : e.IsPairless) (hwrite : t.write h time e = .ok (h', none)) :
    ((∀ c ∈ Text.unfinished text, Json.isSpace c = true) → ∀ count (runId : Option τ),
        t.read h' count runId = (t.all h).map (· ++ [e.record time]) >>= pick count runId) ∧
      ((∃ c ∈ Text.unfinished text, Json.isSpace c = false) → ∀ new : List (Json τ), t.all h' = .ok new →
        records (Text.finished text) = .ok new ∧ ∀ old, t.all h = .ok old → new <+: old) := by
  refine ⟨fun hspaces count runId => ?_, fun hopen new hnew =>
    all_write_unfinished htext hduration hpairless hwrite hopen hnew⟩
  obtain ⟨hwritable, hall⟩ := all_write htext hwrite
  have hnotable := AuditEntry.notable_record hwritable hduration hpairless time
  have hskip : Json.skipSpace (Text.unfinished text) = [] := List.dropWhile_eq_nil_iff.mpr hspaces
  rw [read_eq, hall, (all_of_text (τ := τ) htext).trans (records_split text), record?_blank hspaces,
    AuditEntry.record, record?_spaces hnotable hskip]
  cases recordsOn (τ := τ) (Text.linesFrom [] (Text.finished text)) with
  | error f => rfl
  | ok kept =>
    simp only [bind, Except.bind, pure, Except.pure, Except.map, Option.toList_some,
      Option.toList_none, List.append_nil]

/-- A host with a trail of the given ASCII text. -/
def trailHost (text : String) : Host :=
  { emptyHost with
    files := .folder [("audit.jsonl", .file (.bytes (text.toList.map fun c => UInt8.ofNat c.toNat)))] }

theorem trailHost_holds (text : String) :
    (trailHost text).Holds (ofPath "/audit.jsonl").path (text.toList.map fun c => UInt8.ofNat c.toNat) := by
  rw [path_audit]
  exact ⟨by decide, ["audit.jsonl"], rfl, rfl⟩

theorem trailHost_readText {text : String} (htext : text.toList.all (fun c => c.toNat < 128) = true) :
    (trailHost text).readText (ofPath "/audit.jsonl").path = .ok text.toList := by
  have hascii : ∀ c ∈ text.toList, c.toNat < 128 := fun c hc =>
    of_decide_eq_true (List.all_eq_true.mp htext c hc)
  rw [Host.readText, (trailHost_holds text).readBytes]
  simp only [bind, Except.bind, Text.decode, Text.decodeFrom_ascii hascii]
  rfl

/-- An entry of a run with one engine and no violations. -/
def quietRun : AuditCall where
  time := "2024-05-01T12:00:00+00:00"
  entry :=
    { runId := "w"
      engines := ["probe"]
      violations := 0
      byEngine := ⟨[("probe", 0)], by decide⟩
      failed := []
      duration := .finite false 0 (-1074) }

theorem trailHost_write (text : String) : ∃ h', (ofPath "/audit.jsonl").write (trailHost text)
    quietRun.time quietRun.entry = .ok (h', none) := by
  obtain ⟨h', happend, -⟩ :=
    (trailHost_holds text).append (Text.encode (quietRun.record.render ++ "\n"))
  exact ⟨h', write_of_append (by decide) happend⟩

/-- The record of some run. -/
def someRun : Json := .obj [("run_id", .str "ok")]

theorem record?_someRun : record? "\x7b\"run_id\": \"ok\"\x7d" = .ok (some someRun) := by
  have hrender : someRun.render = "\x7b\"run_id\": \"ok\"\x7d" := by decide
  rw [← hrender]
  exact record?_render ⟨by decide, Json.pairless_string _, Json.pairless_string _, trivial⟩

/-- A trail with a line that is not JSON and a last line of spaces. -/
def corruptTrail : String := "not json\n\x7b\"run_id\": \"ok\"\x7d\n \t"

/-- A trail with a record on a last line without line end. -/
def openTrail : String := "\x7b\"run_id\": \"ok\"\x7d"

theorem records_corruptTrail : records corruptTrail.toList = .ok [someRun] := by
  have hlines : Text.lines (String.ofList (Text.uniformNewlines corruptTrail.toList)) =
      ["not json", "\x7b\"run_id\": \"ok\"\x7d", " \t"] := by decide
  have hcorrupt : record? (τ := String) "not json" = .ok none := by rfl
  have hspaces : record? (τ := String) " \t" = .ok none := by rfl
  rw [records, hlines]
  simp [hcorrupt, hspaces, record?_someRun, bind, Except.bind, pure, Except.pure]

theorem records_openTrail : records openTrail.toList = .ok [someRun] := by
  have hlines : Text.lines (String.ofList (Text.uniformNewlines openTrail.toList)) =
      ["\x7b\"run_id\": \"ok\"\x7d"] := by decide
  rw [records, hlines]
  simp [record?_someRun, bind, Except.bind, pure, Except.pure]

/-- Behind a line that is not JSON and a last line of spaces the entry is found. -/
theorem write_extends_corruptTrail :
    (ofPath "/audit.jsonl").all (trailHost corruptTrail) = .ok [someRun] ∧
      ∃ h, (ofPath "/audit.jsonl").write (trailHost corruptTrail) quietRun.time quietRun.entry =
          .ok (h, none) ∧
        (ofPath "/audit.jsonl").read h 0 none = .ok [someRun, quietRun.record] := by
  have htext : (trailHost corruptTrail).readText (ofPath "/audit.jsonl").path = .ok corruptTrail.toList :=
    trailHost_readText rfl
  have hbefore := (all_of_text htext).trans records_corruptTrail
  obtain ⟨h, hwrite⟩ := trailHost_write corruptTrail
  refine ⟨hbefore, h, hwrite, ?_⟩
  rw [(write_extends htext (by rfl) (AuditEntry.isPairless_string _) hwrite).1 (List.all_eq_true.mp rfl) 0 none,
    hbefore]
  rfl

/-- Behind a record without line end neither the record nor the entry is found. -/
theorem write_spoils_openTrail :
    (ofPath "/audit.jsonl").all (trailHost openTrail) = .ok [someRun] ∧
      ∃ h, (ofPath "/audit.jsonl").write (trailHost openTrail) quietRun.time quietRun.entry =
          .ok (h, none) ∧
        ∀ found : List Json, (ofPath "/audit.jsonl").all h = .ok found → found = [] := by
  have htext : (trailHost openTrail).readText (ofPath "/audit.jsonl").path = .ok openTrail.toList :=
    trailHost_readText rfl
  obtain ⟨h, hwrite⟩ := trailHost_write openTrail
  refine ⟨(all_of_text htext).trans records_openTrail, h, hwrite, fun found hfound => ?_⟩
  obtain ⟨hfinished, -⟩ :=
    all_write_unfinished htext (by rfl) (AuditEntry.isPairless_string _) hwrite ⟨'\x7b', by decide, rfl⟩ hfound
  have hnothing : Text.finished openTrail.toList = [] := by decide
  rw [hnothing] at hfinished
  cases hfinished
  rfl

end AuditTrail

end Polyscan
