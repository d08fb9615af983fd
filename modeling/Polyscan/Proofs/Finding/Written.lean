import Mathlib.Data.List.Forall2
import Polyscan.Finding

/-!
How findings are written as data. A report is read only if every field has the form that is meant for it:
lines, columns and indices are whole numbers, and neither truth values nor fractions nor texts stand for
them. `findings_good_iff` says that reading gives back exactly what is written.
-/
namespace Polyscan

/-! ## Written fields -/

/-- An optional whole number: to leave it out and to write null is the same. -/
def WrittenOptional (fields : List (String × Json)) (name : String) : Option Int → Prop
  | some n => OrderedMap.find name fields = some (.int n)
  | none => OrderedMap.find name fields = none ∨ OrderedMap.find name fields = some .null

/-- A list, item by item; to leave it out is to write the empty list. -/
def WrittenList {α : Type} (item : Json → α → Prop) (fields : List (String × Json)) (name : String)
    (l : List α) : Prop :=
  (OrderedMap.find name fields = none ∧ l = []) ∨
    ∃ items, OrderedMap.find name fields = some (.arr items) ∧ List.Forall₂ item items l

def Location.Written (v : Json) (l : Location Int) : Prop :=
  ∃ fields, v = .obj fields ∧
    OrderedMap.find "file" fields = some (.str l.file) ∧
    OrderedMap.find "start_line" fields = some (.int l.startLine) ∧
    OrderedMap.find "start_column" fields = some (.int l.startColumn) ∧
    WrittenOptional fields "end_line" l.endLine ∧
    WrittenOptional fields "end_column" l.endColumn

def Finding.Written (v : Json) (f : Finding Int) : Prop :=
  ∃ fields, v = .obj fields ∧
    OrderedMap.find "rule_name" fields = some (.str f.rule) ∧
    OrderedMap.find "message" fields = some (.str f.message) ∧
    WrittenList Location.Written fields "code_locations" f.locations ∧
    (OrderedMap.find "primary_location_index" fields = some (.int f.primaryIndex) ∨
      OrderedMap.find "primary_location_index" fields = none ∧ f.primaryIndex = 0) ∧
    WrittenList (fun v url => v = .str url) fields "resource_urls" f.resourceUrls

/-- The findings of a whole report. -/
def FindingsWritten (v : Json) (fs : List (Finding Int)) : Prop :=
  ∃ fields, v = .obj fields ∧ WrittenList Finding.Written fields "violations" fs

namespace Schema

variable {α β : Type}

/-! ## What schemas accept -/

theorem map_good_iff {f : α → β} {x : Checked α} {b : β} :
    f <$> x = .good b ↔ ∃ a, x = .good a ∧ f a = b := by
  cases x with
  | good a =>
    change Checked.good (f a) = .good b ↔ _
    simp
  | bad issues =>
    change Checked.bad issues = .good b ↔ _
    simp

theorem seq_good_iff {f : Checked (α → β)} {x : Checked α} {b : β} :
    f <*> x = .good b ↔ ∃ g a, f = .good g ∧ x = .good a ∧ g a = b := by
  change Checked.both f x = .good b ↔ _
  cases f <;> cases x <;> simp [Checked.both]

theorem under_good_iff {step : Step} {x : Checked α} {a : α} :
    x.under step = .good a ↔ x = .good a := by
  cases x <;> simp [Checked.under]

theorem orFault_eq_ok_iff (model : String) {x : Checked α} {a : α} :
    x.orFault model = .ok a ↔ x = .good a := by
  cases x <;> simp [Checked.orFault]

theorem required_good_iff {fields : List (String × Json)} {name : String}
    {schema : Json → Checked α} {a : α} :
    required fields name schema = .good a ↔
      ∃ v, OrderedMap.find name fields = some v ∧ schema v = .good a := by
  unfold required
  cases OrderedMap.find name fields with
  | none => simp [Checked.complain, Checked.under]
  | some v => simp [under_good_iff]

theorem withDefault_good_iff {fields : List (String × Json)} {name : String} {default : α}
    {schema : Json → Checked α} {a : α} :
    withDefault fields name default schema = .good a ↔
      (OrderedMap.find name fields = none ∧ a = default) ∨
        ∃ v, OrderedMap.find name fields = some v ∧ schema v = .good a := by
  unfold withDefault
  cases OrderedMap.find name fields with
  | none => simp [eq_comm]
  | some v => simp [under_good_iff]

theorem object_good_iff {model : String} {schema : List (String × Json) → Checked α} {v : Json}
    {a : α} :
    object model schema v = .good a ↔ ∃ fields, v = .obj fields ∧ schema fields = .good a := by
  cases v <;> simp [object, Checked.complain]

theorem string_good_iff {v : Json} {s : String} : string v = .good s ↔ v = .str s := by
  cases v <;> simp [string, Checked.complain]

theorem wholeNumber_good_iff {v : Json} {n : Int} : wholeNumber v = .good n ↔ v = .int n := by
  cases v <;> simp [wholeNumber, Checked.complain]

theorem itemsFrom_good_iff {schema : Json → Checked α} {items : List Json} {l : List α}
    (position : Nat) :
    itemsFrom schema position items = .good l ↔
      List.Forall₂ (fun v a => schema v = .good a) items l := by
  induction items generalizing l position with
  | nil => simp [itemsFrom, eq_comm]
  | cons v rest ih =>
    simp only [itemsFrom, seq_good_iff, map_good_iff, under_good_iff, ih, List.forall₂_cons_left_iff]
    constructor
    · intro h
      obtain ⟨g, more, ⟨a, ha, rfl⟩, hmore, rfl⟩ := h
      exact ⟨a, more, ha, hmore, rfl⟩
    · intro h
      obtain ⟨a, more, ha, hmore, rfl⟩ := h
      exact ⟨_, more, ⟨a, ha, rfl⟩, hmore, rfl⟩

theorem list_good_iff {schema : Json → Checked α} {v : Json} {l : List α} :
    list schema v = .good l ↔
      ∃ items, v = .arr items ∧ List.Forall₂ (fun v a => schema v = .good a) items l := by
  cases v <;> simp [list, Checked.complain, itemsFrom_good_iff]

/-- An optional whole number is read as it is written. -/
theorem optional_good_iff {fields : List (String × Json)} {name : String} {n : Option Int} :
    withDefault fields name none (nullable wholeNumber) = .good n ↔ WrittenOptional fields name n := by
  rw [withDefault_good_iff]
  cases n with
  | none =>
    simp only [and_true, WrittenOptional]
    refine or_congr_right ⟨?_, fun h => ⟨.null, h, rfl⟩⟩
    intro hread
    obtain ⟨v, hv, hnone⟩ := hread
    cases v <;> simp_all [nullable, wholeNumber, Checked.map, Checked.complain]
  | some n =>
    simp only [reduceCtorEq, and_false, false_or, WrittenOptional]
    refine ⟨?_, fun h => ⟨.int n, h, rfl⟩⟩
    intro hread
    obtain ⟨v, hv, hsome⟩ := hread
    cases v <;> simp_all [nullable, wholeNumber, Checked.map, Checked.complain]

/-- A list is read as it is written if its items are. -/
theorem listField_good_iff {schema : Json → Checked α} {item : Json → α → Prop}
    (hitem : ∀ v a, schema v = .good a ↔ item v a) {fields : List (String × Json)} {name : String}
    {l : List α} :
    withDefault fields name [] (list schema) = .good l ↔ WrittenList item fields name l := by
  simp only [withDefault_good_iff, list_good_iff, hitem, WrittenList]
  refine or_congr_right ⟨?_, ?_⟩
  · intro h
    obtain ⟨v, hv, items, rfl, hitems⟩ := h
    exact ⟨items, hv, hitems⟩
  · intro h
    obtain ⟨items, hv, hitems⟩ := h
    exact ⟨_, hv, items, rfl, hitems⟩

theorem stringsField_good_iff {fields : List (String × Json)} {name : String} {l : List String} :
    withDefault fields name [] strings = .good l ↔
      WrittenList (fun v s => v = .str s) fields name l :=
  listField_good_iff fun v s => show string v = .good s ↔ _ from string_good_iff

/-! ## Findings -/

theorem location_good_iff (v : Json) (l : Location Int) :
    location v = .good l ↔ l.Written v := by
  simp only [location, object_good_iff, seq_good_iff, map_good_iff, required_good_iff,
    string_good_iff, wholeNumber_good_iff, optional_good_iff, Location.Written]
  constructor
  · rintro ⟨fields, rfl, _, endColumn, ⟨_, endLine, ⟨_, startColumn, ⟨_, startLine,
      ⟨file, ⟨_, hfile, rfl⟩, rfl⟩, ⟨_, hline, rfl⟩, rfl⟩, ⟨_, hcolumn, rfl⟩, rfl⟩, hendLine, rfl⟩,
      hendColumn, rfl⟩
    exact ⟨fields, rfl, hfile, hline, hcolumn, hendLine, hendColumn⟩
  · intro h
    obtain ⟨fields, rfl, hfile, hline, hcolumn, hendLine, hendColumn⟩ := h
    exact ⟨fields, rfl, _, _, ⟨_, _, ⟨_, _, ⟨_, _, ⟨_, ⟨_, hfile, rfl⟩, rfl⟩, ⟨_, hline, rfl⟩, rfl⟩,
      ⟨_, hcolumn, rfl⟩, rfl⟩, hendLine, rfl⟩, hendColumn, rfl⟩

theorem finding_good_iff (v : Json) (f : Finding Int) : finding v = .good f ↔ f.Written v := by
  simp only [finding, object_good_iff, seq_good_iff, map_good_iff, required_good_iff,
    string_good_iff, stringsField_good_iff, listField_good_iff location_good_iff, Finding.Written]
  constructor
  · rintro ⟨fields, rfl, _, urls, ⟨_, index, ⟨_, locations, ⟨_, message,
      ⟨rule, ⟨_, hrule, rfl⟩, rfl⟩, ⟨_, hmessage, rfl⟩, rfl⟩, hlocations, rfl⟩, hindex, rfl⟩, hurls, rfl⟩
    refine ⟨fields, rfl, hrule, hmessage, hlocations, ?_, hurls⟩
    rcases withDefault_good_iff.mp hindex with ⟨hnone, rfl⟩ | ⟨v, hv, hint⟩
    · exact .inr ⟨hnone, rfl⟩
    · exact .inl (by rw [hv, wholeNumber_good_iff.mp hint])
  · intro h
    obtain ⟨fields, rfl, hrule, hmessage, hlocations, hindex, hurls⟩ := h
    refine ⟨fields, rfl, _, _, ⟨_, _, ⟨_, _, ⟨_, _, ⟨_, ⟨_, hrule, rfl⟩, rfl⟩, ⟨_, hmessage, rfl⟩, rfl⟩,
      hlocations, rfl⟩, withDefault_good_iff.mpr ?_, rfl⟩, hurls, rfl⟩
    rcases hindex with hv | ⟨hnone, hzero⟩
    · exact .inr ⟨_, hv, wholeNumber_good_iff.mpr rfl⟩
    · exact .inl ⟨hnone, hzero⟩

theorem findings_good_iff (v : Json) (fs : List (Finding Int)) :
    findings v = .good fs ↔ FindingsWritten v fs := by
  simp only [findings, object_good_iff, listField_good_iff finding_good_iff, FindingsWritten]

end Schema

end Polyscan
