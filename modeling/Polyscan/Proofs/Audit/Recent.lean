import Polyscan.Proofs.Audit.Unfinished
import Polyscan.Proofs.Items

/-!
`read` on a trail of arbitrary content. Blank lines, lines that are not JSON and `null` are passed over; a
line with a value of another type than object is a record, on which the `run_id` filter raises; an integer of
more than `digitLimit` digits makes every `read` raise. `readsNewest_iff` and `readsNewest_count_iff` say for
which texts and counts `read` gives the newest objects.
-/
namespace Polyscan

/-! ## Blank lines are no data -/

namespace Json

variable {τ : Type} {c : Char}

theorem ne_of_isBlank (hc : Text.isBlank c.toNat = true) {d : Char} (hd : Text.isBlank d.toNat = false) :
    d ≠ c := by
  rintro rfl
  rw [hd] at hc
  cases hc

theorem scalar_of_isBlank (hc : Text.isBlank c.toNat = true) (rest : List Char) :
    (scalar (c :: rest) : Except ReadError (Json τ × List Char)) = failAt .value (c :: rest) := by
  have hhead : c ∉ ['n', 't', 'f', 'N', 'I', '-'] := by
    intro hmem
    simp only [List.mem_cons, List.not_mem_nil, or_false] at hmem
    rcases hmem with rfl | rfl | rfl | rfl | rfl | rfl <;> cases hc
  have hdigit : isAsciiDigit c = false := by
    cases hdigit : isAsciiDigit c with
    | false => rfl
    | true =>
      simp only [isAsciiDigit, Text.isAsciiDigit, Text.isBlank, Bool.and_eq_true, Bool.or_eq_true,
        decide_eq_true_eq, beq_iff_eq] at hdigit hc
      omega
  have hwhole : wholePart? (c :: rest) = none := by
    unfold wholePart?
    split
    · next heq => exact absurd (List.cons.inj heq).1.symm (ne_of_isBlank hc rfl)
    · rw [List.takeWhile_cons, hdigit]
      rfl
  rw [scalar_eq_number hhead, number, hwhole]

variable [DecidableEq τ] [IsText τ]

theorem value_of_isBlank (hc : Text.isBlank c.toNat = true) (fuel : Nat) (rest : List Char) :
    (value (fuel + 1) (c :: rest) : Except ReadError (Json τ × List Char)) =
      failAt .value (c :: rest) := by
  rw [value, scalar_of_isBlank hc]
  · simpa using (ne_of_isBlank hc (d := '"') rfl).symm
  · simpa using (ne_of_isBlank hc (d := '[') rfl).symm
  · simpa using (ne_of_isBlank hc (d := '\x7b') rfl).symm

theorem read_of_isBlank {s : List Char} (hs : ∀ c ∈ s, Text.isBlank c.toNat = true) :
    ∃ remaining, (read s : Except ReadError (Json τ)) = .error ⟨.value, remaining⟩ := by
  have hvalue : ∃ remaining, value (τ := τ) (s.length + 1) (skipSpace s) =
      .error ⟨.value, remaining⟩ := by
    cases hspace : skipSpace s with
    | nil => exact ⟨0, rfl⟩
    | cons c rest =>
      have hmem : c ∈ skipSpace s := by
        rw [hspace]
        exact List.mem_cons_self
      have hc : Text.isBlank c.toNat = true := hs c ((List.dropWhile_sublist isSpace).subset hmem)
      exact ⟨_, value_of_isBlank hc s.length rest⟩
  obtain ⟨remaining, hvalue⟩ := hvalue
  unfold read
  split
  · exact absurd (hs '\ufeff' List.mem_cons_self) (by decide)
  · rw [hvalue]
    exact ⟨remaining, rfl⟩

end Json

namespace AuditTrail

section

variable {τ : Type} [DecidableEq τ] [IsText τ]

/-! ## What a line holds -/

/-- The object on a line, if the line has one. -/
def objectOn? (line : String) : Option (Json τ) :=
  match Json.read line.toList with
  | .ok (.obj fields) => some (.obj fields)
  | _ => none

variable (τ) in
/-- The line has an integer of more than `digitLimit` digits, on which the JSON parser raises. -/
def isOverlong (line : String) : Bool :=
  match Json.read (τ := τ) line.toList with
  | .error ⟨.tooManyDigits _, _⟩ => true
  | _ => false

variable (τ) in
/-- The line has a value that is neither an object nor null. -/
def isStray (line : String) : Bool :=
  match Json.read (τ := τ) line.toList with
  | .ok .null | .ok (.obj _) => false
  | .ok _ => true
  | .error _ => false

variable (τ) in
/-- The line has an object or null, or is not JSON. -/
def IsHarmless (line : String) : Prop := isOverlong τ line = false ∧ isStray τ line = false

variable {line : String}

theorem exists_of_objectOn? {r : Json τ} (h : objectOn? line = some r) : ∃ fields, r = .obj fields := by
  unfold objectOn? at h
  split at h
  · exact ⟨_, (Option.some.inj h).symm⟩
  · cases h

/-- The test for blank lines is redundant: a blank line is not JSON. -/
theorem record?_eq (line : String) :
    record? line =
      match Json.read (τ := τ) line.toList with
      | .ok .null => .ok none
      | .ok v => .ok (some v)
      | .error ⟨.tooManyDigits n, _⟩ =>
        .error (.raised .value (overlongText (some n)))
      | .error _ => .ok none := by
  unfold record?
  split
  · next hblank =>
    have hs : ∀ c ∈ line.toList, Text.isBlank c.toNat = true := by
      intro c hc
      by_contra hne
      have htrim := trim_of_mem (Bool.eq_false_iff.mpr hne) hc
      rw [String.ofList_toList, hblank] at htrim
      cases htrim
    obtain ⟨remaining, hread⟩ := Json.read_of_isBlank (τ := τ) hs
    rw [hread]
  · rfl

theorem record?_of_isHarmless (h : IsHarmless τ line) : record? line = .ok (objectOn? (τ := τ) line) := by
  obtain ⟨hoverlong, hstray⟩ := h
  unfold isOverlong at hoverlong
  unfold isStray at hstray
  rw [record?_eq, objectOn?]
  generalize Json.read (τ := τ) line.toList = outcome at hoverlong hstray ⊢
  rcases outcome with ⟨problem, remaining⟩ | v
  · cases problem <;> first | rfl | cases hoverlong
  · cases v <;> first | rfl | cases hstray

theorem record?_of_isOverlong (h : isOverlong τ line = true) : ∃ f, record? (τ := τ) line = .error f := by
  unfold isOverlong at h
  rw [record?_eq]
  generalize Json.read (τ := τ) line.toList = outcome at h ⊢
  rcases outcome with ⟨problem, remaining⟩ | v
  · cases problem <;> first | exact ⟨_, rfl⟩ | cases h
  · cases h

theorem record?_of_isStray (h : isStray τ line = true) :
    ∃ v : Json τ, record? line = .ok (some v) ∧ ∀ fields, v ≠ .obj fields := by
  unfold isStray at h
  rw [record?_eq]
  generalize Json.read (τ := τ) line.toList = outcome at h ⊢
  rcases outcome with ⟨problem, remaining⟩ | v
  · cases h
  · cases v with
    | null => cases h
    | obj fields => cases h
    | _ => exact ⟨_, rfl, by simp⟩

/-! ## What a text holds -/

/-- The lines of a text. -/
def linesOf (text : List Char) : List String := Text.lines (String.ofList (Text.uniformNewlines text))

/-- The objects on the lines of a text, in order. -/
def objects (text : List Char) : List (Json τ) := (linesOf text).filterMap objectOn?

/-- Whether an object has the value `id` under the key `run_id`. -/
def hasRunId (id : τ) (r : Json τ) : Bool :=
  match r.field? (IsText.ofString "run_id") with
  | some (.str s) => s == id
  | _ => false

/-- The objects with the run id, or all objects. -/
def matching (runId : Option τ) (found : List (Json τ)) : List (Json τ) :=
  match runId with
  | none => found
  | some id => found.filter (hasRunId id)

variable {text : List Char} {found : List (Json τ)}

theorem exists_of_mem_objects {r : Json τ} (h : r ∈ objects text) : ∃ fields, r = .obj fields := by
  obtain ⟨line, -, hline⟩ := List.mem_filterMap.mp h
  exact exists_of_objectOn? hline

theorem records_of_isHarmless (h : ∀ line ∈ linesOf text, IsHarmless τ line) :
    records text = .ok (objects (τ := τ) text) := by
  have hlines : (linesOf text).mapM record? = .ok ((linesOf text).map (objectOn? (τ := τ))) := by
    rw [mapM_eq_ok_iff, List.forall₂_map_right_iff, List.forall₂_same]
    exact fun line hline => record?_of_isHarmless (h line hline)
  rw [records, ← linesOf, hlines]
  simp [bind, Except.bind, pure, Except.pure, objects, List.filterMap_map]

/-- If `records` returns, `record?` returns on every line, and its value is among the records. -/
theorem exists_of_records (h : records text = .ok found) (hline : line ∈ linesOf text) :
    ∃ r?, record? line = .ok r? ∧ ∀ r ∈ r?, r ∈ found := by
  obtain ⟨read, hread, hfound⟩ := Json.exists_of_bind_eq_ok h
  cases hfound
  obtain ⟨r?, hmem, hr⟩ := exists_partner (mapM_eq_ok_iff.mp hread) hline
  exact ⟨r?, hr, fun r hr => List.mem_filterMap.mpr ⟨r?, hmem, hr⟩⟩

/-! ## The records of one run -/

theorem isOfRun_obj (id : τ) (fields : List (τ × Json τ)) :
    isOfRun id (.obj fields) = .ok (hasRunId id (.obj fields)) := by
  simp only [isOfRun, hasRunId, Json.field?]
  cases OrderedMap.find (IsText.ofString "run_id") fields with
  | none => rfl
  | some v => cases v <;> rfl

theorem ofRun_of_objects (id : τ) (h : ∀ r ∈ found, ∃ fields, r = Json.obj fields) :
    ofRun id found = .ok (found.filter (hasRunId id)) := by
  induction found with
  | nil => rfl
  | cons r rest ih =>
    obtain ⟨⟨fields, rfl⟩, hrest⟩ := List.forall_mem_cons.mp h
    rw [ofRun, isOfRun_obj, ih hrest, List.filter_cons]
    rfl

/-- The filter raises if one of the records is not an object. -/
theorem ofRun_of_stray (id : τ) {v : Json τ} (hv : ∀ fields, v ≠ .obj fields) (hmem : v ∈ found) :
    ∃ f, ofRun id found = .error f := by
  induction found with
  | nil => cases hmem
  | cons r rest ih =>
    rw [ofRun]
    rcases List.mem_cons.mp hmem with rfl | hmem
    · cases v with
      | obj fields => exact absurd rfl (hv fields)
      | _ => exact ⟨_, rfl⟩
    · obtain ⟨f, hf⟩ := ih hmem
      rw [hf]
      cases isOfRun id r <;> exact ⟨_, rfl⟩

theorem pick_of_objects (count : Int) (runId : Option τ)
    (h : ∀ r ∈ found, ∃ fields, r = Json.obj fields) :
    pick count runId found = .ok (recent count (matching runId found)) := by
  cases runId with
  | none => rfl
  | some id =>
    rw [pick, ofRun_of_objects id h]
    rfl

/-! ## What is read -/

variable {t : AuditTrail} {h : Host}

theorem read_of_isHarmless (htext : h.readText t.path = .ok text)
    (hlines : ∀ line ∈ linesOf text, IsHarmless τ line) (count : Int) (runId : Option τ) :
    t.read h count runId = .ok (recent count (matching runId (objects text))) := by
  rw [read_eq, all_of_text htext, records_of_isHarmless hlines]
  exact pick_of_objects count runId fun r hr => exists_of_mem_objects hr

/-- If `read` returns, no line is overlong. -/
theorem isOverlong_of_read (htext : h.readText t.path = .ok text) {count : Int} {runId : Option τ}
    {newest : List (Json τ)} (hread : t.read h count runId = .ok newest) (hline : line ∈ linesOf text) :
    isOverlong τ line = false := by
  rw [read_eq, all_of_text htext] at hread
  obtain ⟨found, hrecords, -⟩ := Json.exists_of_bind_eq_ok hread
  obtain ⟨r?, hr, -⟩ := exists_of_records hrecords hline
  cases hoverlong : isOverlong τ line with
  | false => rfl
  | true =>
    obtain ⟨f, hf⟩ := record?_of_isOverlong hoverlong
    cases hf.symm.trans hr

/-- If `read` with a run id returns, no line is stray. -/
theorem isStray_of_read (htext : h.readText t.path = .ok text) {count : Int} {id : τ}
    {newest : List (Json τ)} (hread : t.read h count (some id) = .ok newest) (hline : line ∈ linesOf text) :
    isStray τ line = false := by
  rw [read_eq, all_of_text htext] at hread
  obtain ⟨found, hrecords, hpick⟩ := Json.exists_of_bind_eq_ok hread
  obtain ⟨r?, hr, hfound⟩ := exists_of_records hrecords hline
  cases hstray : isStray τ line with
  | false => rfl
  | true =>
    obtain ⟨v, hv, hobject⟩ := record?_of_isStray hstray
    cases hv.symm.trans hr
    obtain ⟨f, hf⟩ := ofRun_of_stray id hobject (hfound v rfl)
    rw [pick, hf] at hpick
    cases hpick

/-- `read` returns the last `count` of the matching objects. -/
def ReadsNewest (t : AuditTrail) (h : Host) (text : List Char) (count : Nat) (runId : Option τ) : Prop :=
  ∃ newest, t.read h count runId = .ok newest ∧ Newest count (matching runId (objects text)) newest

/-- `read` returns the newest objects for every positive count, with and without a run id, if and only if
every line of the text is harmless: none has a value of another type than object, and none has an integer of
more than `digitLimit` digits. -/
theorem readsNewest_iff (htext : h.readText t.path = .ok text) :
    (∀ count, 1 ≤ count → ∀ runId : Option τ, ReadsNewest t h text count runId) ↔
      ∀ line ∈ linesOf text, IsHarmless τ line := by
  constructor
  · intro hread line hline
    -- with a run id, `read` raises on either kind of line
    obtain ⟨newest, hnewest, -⟩ := hread 1 (Nat.le_refl 1) (some (IsText.ofString ""))
    exact ⟨isOverlong_of_read htext hnewest hline, isStray_of_read htext hnewest hline⟩
  · intro hlines count hcount runId
    exact ⟨_, read_of_isHarmless htext hlines count runId, newest_recent hcount _⟩

end

theorem objectOn?_openTrail : objectOn? openTrail = some someRun ∧ IsHarmless String openTrail := by
  have hwrite : someRun.write = openTrail.toList := by decide
  have hread : Json.read openTrail.toList = .ok someRun := by
    rw [← hwrite]
    exact Json.read_write ⟨by decide, Json.pairless_string _, Json.pairless_string _, trivial⟩
  rw [IsHarmless, objectOn?, isOverlong, isStray, hread]
  exact ⟨rfl, rfl, rfl⟩

/-- A line that is not JSON and a line of spaces do not hide the object between them. -/
theorem readsNewest_corruptTrail :
    ReadsNewest (ofPath "/audit.jsonl") (trailHost corruptTrail) corruptTrail.toList 50 (some "ok") := by
  have hlines : linesOf corruptTrail.toList = ["not json", openTrail, " \t"] := by decide
  refine (readsNewest_iff (trailHost_readText rfl)).mpr ?_ 50 (by decide) (some "ok")
  rw [hlines]
  exact List.forall_mem_cons.mpr ⟨⟨rfl, rfl⟩, List.forall_mem_cons.mpr ⟨objectOn?_openTrail.2,
    List.forall_mem_singleton.mpr ⟨rfl, rfl⟩⟩⟩

/-- A trail with a list on its first line. -/
def strayTrail : String := "[1]\n\x7b\"run_id\": \"ok\"\x7d\n"

/-- `read` keeps the list as a record, and with a run id it raises an attribute error on it. -/
theorem read_strayTrail :
    (trailHost strayTrail).readText (ofPath "/audit.jsonl").path = .ok strayTrail.toList ∧
      objects strayTrail.toList = [someRun] ∧
      (ofPath "/audit.jsonl").read (trailHost strayTrail) 50 none = .ok [.arr [.int 1], someRun] ∧
      (ofPath "/audit.jsonl").read (trailHost strayTrail) 50 (some "ok") =
        .error (.raised .attribute "'list' object has no attribute 'get'") := by
  have hlines : linesOf strayTrail.toList = ["[1]", openTrail] := by decide
  have hlist : Json.read "[1]".toList = .ok (.arr [.int 1] : Json) := by
    have hwrite : (.arr [.int 1] : Json).write = "[1]".toList := by decide
    rw [← hwrite]
    exact Json.read_write ⟨show (Nat.toDigits 10 1).length ≤ _ from by decide, trivial⟩
  have hstray : record? "[1]" = .ok (some (.arr [.int 1] : Json)) := by rw [record?_eq, hlist]
  have htext : (trailHost strayTrail).readText (ofPath "/audit.jsonl").path = .ok strayTrail.toList :=
    trailHost_readText rfl
  have hrecords : records strayTrail.toList = .ok [.arr [.int 1], someRun] := by
    rw [records, ← linesOf, hlines, openTrail]
    simp [hstray, record?_someRun, bind, Except.bind, pure, Except.pure]
  refine ⟨htext, ?_, ?_, ?_⟩
  · rw [objects, hlines, List.filterMap_cons, objectOn?, hlist]
    simp [objectOn?_openTrail.1]
  all_goals
    rw [read_eq, all_of_text htext, hrecords]
    rfl

/-! ## How many -/

/-- `recent` gives the newest elements unless the count is zero and the list is not empty. -/
theorem newest_recent_iff {α : Type} (count : Nat) (l : List α) :
    Newest count l (recent count l) ↔ (count = 0 → l = []) := by
  cases count with
  | zero =>
    have hall : recent ((0 : Nat) : Int) l = l := rfl
    rw [hall, Newest]
    simp
  | succ count =>
    have hnewest := newest_recent (Nat.succ_le_succ (Nat.zero_le count)) l
    simpa using hnewest

/-- A smaller count gives a suffix of what a larger one gives. -/
theorem Newest.suffix {α : Type} {fewer more : Nat} {l few many : List α} (hle : fewer ≤ more)
    (hfew : Newest fewer l few) (hmany : Newest more l many) : few <:+ many := by
  refine List.suffix_of_suffix_length_le hfew.1 hmany.1 ?_
  rw [hfew.2, hmany.2]
  omega

section

variable {τ : Type} [DecidableEq τ] [IsText τ] {line : String} {text : List Char} {t : AuditTrail} {h : Host}

theorem isStray_of_objectOn? (hobject : (objectOn? (τ := τ) line).isSome) : isStray τ line = false := by
  unfold objectOn? at hobject
  unfold isStray
  split at hobject
  · next hread => rw [hread]
  · cases hobject

/-- On a text whose lines hold objects or overlong integers, `read` returns the newest `count` objects if and
only if no line is overlong and the count is positive or no object matches. What a smaller count gives is a
suffix of what a larger one gives. -/
theorem readsNewest_count_iff (htext : h.readText t.path = .ok text)
    (hlines : ∀ line ∈ linesOf text, (objectOn? (τ := τ) line).isSome ∨ isOverlong τ line = true)
    (runId : Option τ) :
    (∀ count, ReadsNewest t h text count runId ↔
      (∀ line ∈ linesOf text, isOverlong τ line = false) ∧
        (count = 0 → matching runId (objects text) = [])) ∧
      ∀ fewer more few many, fewer ≤ more → ReadsNewest t h text fewer runId →
        t.read h fewer runId = .ok few → t.read h more runId = .ok many → few <:+ many := by
  have hread : (∀ line ∈ linesOf text, isOverlong τ line = false) → ∀ count : Nat,
      t.read h count runId = .ok (recent count (matching runId (objects text))) := by
    intro hshort count
    refine read_of_isHarmless htext (fun line hline => ⟨hshort line hline, ?_⟩) count runId
    rcases hlines line hline with hobject | hoverlong
    · exact isStray_of_objectOn? hobject
    · rw [hshort line hline] at hoverlong
      cases hoverlong
  have hiff : ∀ count, ReadsNewest t h text count runId ↔
      (∀ line ∈ linesOf text, isOverlong τ line = false) ∧
        (count = 0 → matching runId (objects text) = []) := by
    intro count
    constructor
    · rintro ⟨newest, hnewest, hlast⟩
      have hshort : ∀ line ∈ linesOf text, isOverlong τ line = false :=
        fun line hline => isOverlong_of_read htext hnewest hline
      cases hnewest.symm.trans (hread hshort count)
      exact ⟨hshort, (newest_recent_iff count _).mp hlast⟩
    · rintro ⟨hshort, hcount⟩
      exact ⟨_, hread hshort count, (newest_recent_iff count _).mpr hcount⟩
  refine ⟨hiff, fun fewer more few many hle hfewer hfew hmany => ?_⟩
  obtain ⟨hshort, hcount⟩ := (hiff fewer).mp hfewer
  -- a count of zero is admitted only if no object matches
  have hmore : more = 0 → matching runId (objects text) = [] := fun hmore => hcount (by omega)
  cases hfew.symm.trans (hread hshort fewer)
  cases hmany.symm.trans (hread hshort more)
  exact ((newest_recent_iff fewer _).mpr hcount).suffix hle ((newest_recent_iff more _).mpr hmore)

end

theorem linesOf_openTrail : linesOf openTrail.toList = [openTrail] := by decide

/-- One record on a last line without line end, read with the counts one and three. -/
theorem readsNewest_count_openTrail :
    (objectOn? (τ := String) openTrail).isSome ∧
      ReadsNewest (ofPath "/audit.jsonl") (trailHost openTrail) openTrail.toList 2 (some "ok") := by
  obtain ⟨hrun, hharmless⟩ := objectOn?_openTrail
  have hobject : (objectOn? (τ := String) openTrail).isSome := by
    rw [hrun]
    rfl
  have hlines : ∀ line ∈ linesOf openTrail.toList,
      (objectOn? (τ := String) line).isSome ∨ isOverlong String line = true := by
    rw [linesOf_openTrail]
    exact List.forall_mem_singleton.mpr (.inl hobject)
  refine ⟨hobject, ((readsNewest_count_iff (trailHost_readText rfl) hlines (some "ok")).1 2).mpr ⟨?_, nofun⟩⟩
  rw [linesOf_openTrail]
  exact List.forall_mem_singleton.mpr hharmless.1

/-- `read` with the count zero returns the whole list: the slice from `-0` on is the list itself. -/
theorem read_zero_openTrail :
    (trailHost openTrail).readText (ofPath "/audit.jsonl").path = .ok openTrail.toList ∧
      objects openTrail.toList = [someRun] ∧
      (ofPath "/audit.jsonl").read (trailHost openTrail) 0 none = .ok [someRun] ∧
      ¬ ReadsNewest (ofPath "/audit.jsonl") (trailHost openTrail) openTrail.toList 0
        (none : Option String) := by
  have htext : (trailHost openTrail).readText (ofPath "/audit.jsonl").path = .ok openTrail.toList :=
    trailHost_readText rfl
  have hread : (ofPath "/audit.jsonl").read (trailHost openTrail) 0 none = .ok [someRun] := by
    rw [read_eq, all_of_text htext, records_openTrail]
    rfl
  refine ⟨htext, ?_, hread, ?_⟩
  · rw [objects, linesOf_openTrail, List.filterMap_cons, objectOn?_openTrail.1]
    rfl
  · rintro ⟨newest, hnewest, -, hlength⟩
    cases hnewest.symm.trans hread
    simp at hlength

end AuditTrail

end Polyscan
