import Polyscan.Config
import Polyscan.PatternRule
import Polyscan.Proofs.Finding.Written
import Polyscan.Proofs.Severity.Spelling

/-!
`Severity.read` on every JSON value, alone and as a validator of the fields of `RuleOverride` and
`CustomRule`. An unknown name raises `KeyError`, which `read` replaces by a value error; a validator turns
value errors into complaints and lets every other kind escape from `validate`. `read_eq` and `validate_eq` say
that only value errors leave `read` and only validation errors leave `validate`.
-/
namespace Polyscan

namespace Severity

/-! ## Which failures come out -/

/-- A value equals a natural number if and only if it is a number or a truth value with this value. -/
theorem same_nat (n : Nat) (v : Json) : (Json.nat n).same v = (v.asInt? == some (n : Int)) := by
  have hnumber : (Json.nat n).same v = (Json.nat n).sameNumber v := by
    cases v <;> rfl
  have hwhole : (Json.nat n).asInt? = some (n : Int) := rfl
  rw [hnumber]
  unfold Json.sameNumber
  rw [hwhole]
  cases v.asInt? with
  | none => rfl
  | some m => simp [Bool.beq_comm]

theorem find_same (v : Json) :
    (all.find? fun s => (Json.nat s.number).same v) = v.asInt? >>= ofNumber? := by
  simp only [same_nat]
  cases v.asInt? with
  | none => rfl
  | some m => simp [ofNumber?, Bool.beq_comm]

theorem withValue_eq {v : Json} (hv : ∀ s, v ≠ .str s) : withValue v = (parse v).mapError Problem.fault := by
  rw [withValue, find_same, parse]
  · cases v.asInt? >>= ofNumber? <;> rfl
  · exact hv

theorem withValue_numberOf (text : String) :
    (do withValue (.int (← numberOf text))) = (ofDigits text).mapError Problem.fault := by
  unfold numberOf ofDigits
  simp only
  split
  · rfl
  · cases decimalNumber? text.toList with
    | none => rfl
    | some n =>
      change withValue (.int n) = _
      rw [withValue, find_same, Json.asInt?, Option.bind_eq_bind, Option.bind_some]
      simp only
      cases ofNumber? n <;> rfl

/-- The lookup error of an unknown name does not leave `tryCatch`. -/
theorem tryCatch_withName (s name : String) :
    tryCatch (withName name) (refuseUnknown s) =
      match ofName? name with
      | some level => .ok level
      | none => .error (Problem.unknownName s).fault := by
  unfold withName
  cases ofName? name <;> rfl

theorem read_eq (v : Json) : read v = (parse v).mapError Problem.fault := by
  by_cases hv : ∃ s, v = .str s
  · obtain ⟨s, rfl⟩ := hv
    rw [read, parse, ofText_eq, ofTrimmed]
    split
    · rw [mapError_quoting_ofDigits, withValue_numberOf]
    · rw [tryCatch_withName]
      cases ofName? (Text.upper (Text.trim s)) <;> rfl
  · have hv : ∀ s, v ≠ .str s := fun s hs => hv ⟨s, hs⟩
    rw [read, withValue_eq hv]
    exact hv

/-- `read` gives a level or a value error, and agrees with `parse`. -/
theorem read_cases (v : Json) :
    (∃ level, read v = .ok level ∧ parse v = .ok level) ∨
      ∃ problem, read v = .error (problem : Problem).fault ∧ parse v = .error problem := by
  rw [read_eq]
  cases hv : parse v with
  | ok level => exact .inl ⟨level, rfl, rfl⟩
  | error problem => exact .inr ⟨problem, rfl, rfl⟩

end Severity

namespace Schema

variable {α β : Type}

/-! ## Checks that read -/

theorem guarded_read (v : Json) : guarded Severity.read v = .ok (severitySpelling v) := by
  rw [guarded, severitySpelling]
  rcases Severity.read_cases v with ⟨level, hread, hparse⟩ | ⟨problem, hread, hparse⟩
  · rw [hread, hparse]
  · rw [hread, hparse]
    rfl

theorem guardedNullable_read (v : Json) :
    guardedNullable Severity.read v = .ok (nullable severitySpelling v) := by
  cases v with
  | null => rfl
  | _ =>
    simp only [guardedNullable, nullable, guarded_read]
    rfl

theorem guardedField_eq {schema : Json → Checked α} {check : Json → Except Fault (Checked α)}
    (h : ∀ v, check v = .ok (schema v)) (fields : List (String × Json)) (name : String) (default : α) :
    guardedField fields name default check = .ok (withDefault fields name default schema) := by
  unfold guardedField withDefault
  cases OrderedMap.find name fields with
  | none => rfl
  | some v =>
    simp only [h]
    rfl

/-- `validate` with checks that do not raise is the pure schema. -/
theorem validate_eq {model : String} {schema : List (String × Json) → Checked α}
    {fieldCheck : List (String × Json) → Except Fault (Checked α)}
    (h : ∀ fields, fieldCheck fields = .ok (schema fields)) (v : Json) :
    validate model fieldCheck v = (object model schema v).orFault model := by
  cases v with
  | obj fields =>
    rw [validate, h]
    rfl
  | _ => rfl

theorem validate_ruleOverride (v : Json) :
    validate "RuleOverride" overrideFields v = (ruleOverride v).orFault "RuleOverride" := by
  refine validate_eq (fun fields => ?_) v
  rw [overrideFields, guardedField_eq guardedNullable_read]
  rfl

theorem validate_customRule (v : Json) :
    validate "CustomRuleConfig" customRuleFields v = (customRule v).orFault "CustomRuleConfig" := by
  refine validate_eq (fun fields => ?_) v
  rw [customRuleFields, guardedField_eq guarded_read]
  rfl

/-! ## Complaints -/

/-- The check complains about the issue. -/
def Checked.Blames (x : Checked α) (i : Issue) : Prop := ∃ issues, x = .bad issues ∧ i ∈ issues

theorem blames_map {f : α → β} {x : Checked α} {i : Issue} (h : x.Blames i) : (f <$> x).Blames i := by
  obtain ⟨issues, rfl, hi⟩ := h
  exact ⟨issues, rfl, hi⟩

theorem blames_seq_left {f : Checked (α → β)} (x : Checked α) {i : Issue} (h : f.Blames i) :
    (f <*> x).Blames i := by
  obtain ⟨issues, rfl, hi⟩ := h
  cases x with
  | good a => exact ⟨issues, rfl, hi⟩
  | bad more => exact ⟨issues ++ more, rfl, List.mem_append_left more hi⟩

theorem blames_seq_right (f : Checked (α → β)) {x : Checked α} {i : Issue} (h : x.Blames i) :
    (f <*> x).Blames i := by
  obtain ⟨issues, rfl, hi⟩ := h
  cases f with
  | good f => exact ⟨issues, rfl, hi⟩
  | bad more => exact ⟨more ++ issues, rfl, List.mem_append_right more hi⟩

/-! ## Levels in validated data -/

/-- `run` validates a model with an optional severity: what `Severity.parse` accepts is the level of the
result, and what it refuses is reported under `severity` with the text of the problem. Values that satisfy
`passes` are not read. -/
structure ValidatesLevel (model : String) (run : Json → Except Fault α) (passes : Json → Prop)
    (level? : α → Option Severity) : Prop where
  /-- Validation returns the model or raises a validation error. -/
  ends : ∀ v, (∃ a, run v = .ok a) ∨ ∃ issues, run v = .error (.raised .validation (report model issues))
  accepted : ∀ fields v level a, OrderedMap.find "severity" fields = some v → Severity.parse v = .ok level →
    run (.obj fields) = .ok a → level? a = some level
  refused : ∀ fields v problem, OrderedMap.find "severity" fields = some v → ¬ passes v →
    Severity.parse v = .error problem →
    ∃ issues, run (.obj fields) = .error (.raised .validation (report model issues)) ∧
      ⟨[.field "severity"], .rejected problem.text⟩ ∈ issues

theorem orFault_cases (model : String) (x : Checked α) :
    (∃ a, x.orFault model = .ok a) ∨
      ∃ issues, x.orFault model = .error (.raised .validation (report model issues)) := by
  cases x with
  | good a => exact .inl ⟨a, rfl⟩
  | bad issues => exact .inr ⟨issues, rfl⟩

theorem Checked.Blames.orFault {x : Checked α} {i : Issue} (h : x.Blames i) (model : String) :
    ∃ issues, x.orFault model = .error (.raised .validation (report model issues)) ∧ i ∈ issues := by
  obtain ⟨issues, rfl, hi⟩ := h
  exact ⟨issues, rfl, hi⟩

section

variable {fields : List (String × Json)} {name : String} {v : Json}
  (hfind : OrderedMap.find name fields = some v)

include hfind

theorem withDefault_of_find (default : α) (schema : Json → Checked α) :
    withDefault fields name default schema = (schema v).under (.field name) := by
  rw [withDefault, hfind]

/-- A complaint about a field has the path of the field. -/
theorem blames_withDefault (default : α) {schema : Json → Checked α} {c : Complaint}
    (h : schema v = .complain c) : (withDefault fields name default schema).Blames ⟨[.field name], c⟩ := by
  rw [withDefault_of_find hfind, h]
  exact ⟨_, rfl, List.mem_singleton_self _⟩

end

theorem severitySpelling_of_ok {v : Json} {level : Severity} (h : Severity.parse v = .ok level) :
    severitySpelling v = .good level := by
  rw [severitySpelling, h]

theorem severitySpelling_of_error {v : Json} {problem : Severity.Problem}
    (h : Severity.parse v = .error problem) : severitySpelling v = .complain (.rejected problem.text) := by
  rw [severitySpelling, h]

theorem nullable_of_ne_null (schema : Json → Checked α) {v : Json} (hv : v ≠ .null) :
    nullable schema v = (schema v).map some := by
  cases v with
  | null => exact absurd rfl hv
  | _ => rfl

theorem ruleOverride_validatesLevel :
    ValidatesLevel "RuleOverride" (validate "RuleOverride" overrideFields) (· = .null)
      RuleOverride.severity where
  ends v := by
    rw [validate_ruleOverride]
    exact orFault_cases "RuleOverride" _
  accepted fields v level o hfind hparse hrun := by
    have hnull : v ≠ .null := by
      rintro rfl
      cases hparse
    simp only [validate_ruleOverride, orFault_eq_ok_iff, ruleOverride, object, seq_good_iff, map_good_iff,
      withDefault_of_find hfind, under_good_iff, nullable_of_ne_null _ hnull, severitySpelling_of_ok hparse]
      at hrun
    obtain ⟨_, tags, ⟨severity, hseverity, rfl⟩, -, rfl⟩ := hrun
    cases hseverity
    rfl
  refused fields v problem hfind hnull hparse := by
    have hcheck : nullable severitySpelling v = .complain (.rejected problem.text) := by
      rw [nullable_of_ne_null _ hnull, severitySpelling_of_error hparse]
      rfl
    rw [validate_ruleOverride]
    exact (blames_seq_left _ (blames_map (blames_withDefault hfind none hcheck))).orFault _

theorem customRule_validatesLevel :
    ValidatesLevel "CustomRuleConfig" (validate "CustomRuleConfig" customRuleFields) (fun _ => False)
      fun c => some c.severity where
  ends v := by
    rw [validate_customRule]
    exact orFault_cases "CustomRuleConfig" _
  accepted fields v level c hfind hparse hrun := by
    simp only [validate_customRule, orFault_eq_ok_iff, customRule, object, seq_good_iff, map_good_iff] at hrun
    obtain ⟨_, tags, ⟨_, severity, ⟨_, extensions, ⟨_, message, ⟨_, description, ⟨regex, -, rfl⟩, -, rfl⟩, -, rfl⟩,
      -, rfl⟩, hseverity, rfl⟩, -, rfl⟩ := hrun
    rw [withDefault_of_find hfind, under_good_iff, severitySpelling_of_ok hparse] at hseverity
    cases hseverity
    rfl
  refused fields v problem hfind _ hparse := by
    have hseverity := blames_withDefault hfind .moderate (severitySpelling_of_error hparse)
    rw [validate_customRule]
    exact (blames_seq_left _ (blames_seq_right _ hseverity)).orFault _

end Schema

namespace Severity

/-- How severities are read, alone and in the models that have one. -/
structure ReadsLevels : Prop where
  /-- `read`, with its lookups and handlers, agrees with `parse`. -/
  steps : ∀ v, read v = (parse v).mapError Problem.fault
  /-- `read` returns a level or raises a value error. -/
  ends : ∀ v, (∃ level, read v = .ok level) ∨ ∃ f, read v = .error f ∧ f.kind = .value
  texts : ReadsTexts
  overrideSteps : ∀ v, Schema.validate "RuleOverride" Schema.overrideFields v =
    (Schema.ruleOverride v).orFault "RuleOverride"
  overrides : Schema.ValidatesLevel "RuleOverride" (Schema.validate "RuleOverride" Schema.overrideFields)
    (· = .null) RuleOverride.severity
  declaredSteps : ∀ v, Schema.validate "CustomRuleConfig" Schema.customRuleFields v =
    (Schema.customRule v).orFault "CustomRuleConfig"
  declared : Schema.ValidatesLevel "CustomRuleConfig"
    (Schema.validate "CustomRuleConfig" Schema.customRuleFields) (fun _ => False) fun c => some c.severity

/-- `read` of every JSON value is a level or a value error, all spellings of a level are read alike, and in
`RuleOverride` and `CustomRule` a value error becomes an issue of the field. -/
theorem reads_levels : ReadsLevels where
  steps := read_eq
  ends v := by
    rcases read_cases v with ⟨level, hread, -⟩ | ⟨problem, hread, -⟩
    · exact .inl ⟨level, hread⟩
    · exact .inr ⟨problem.fault, hread, rfl⟩
  texts := reads_texts
  overrideSteps := Schema.validate_ruleOverride
  overrides := Schema.ruleOverride_validatesLevel
  declaredSteps := Schema.validate_customRule
  declared := Schema.customRule_validatesLevel

/-- A superscript digit satisfies the test for digits and is not a decimal number; its value error becomes an
issue of the field. -/
theorem reads_levels_superscript :
    (∃ issues, Schema.validate "RuleOverride" Schema.overrideFields (.obj [("severity", .str "1²")]) =
        .error (.raised .validation (Schema.report "RuleOverride" issues)) ∧
      ⟨[.field "severity"], .rejected (Problem.notDecimal "1²").text⟩ ∈ issues) ∧
    parse (.str " 00３\t") = parse (.str " ３\t") ∧
    parse (.str "high") = .ok high := by
  have hbad : parse (.str "1²") = .error (.notDecimal "1²") := by
    have htrim : Text.trim "1²" = "1²" := by decide
    have hall : isDigits "1²" = true := by decide
    have hnone : decimalNumber? "1²".toList = none := by decide
    have hlead : ¬ digitLimit < ("1²".toList.takeWhile fun c => Text.isDecimal c.toNat).length := by decide
    rw [parse, ofText_eq, htrim, ofTrimmed, if_pos hall, mapError_quoting_ofDigits, ofDigits]
    simp only [if_neg hlead, hnone]
  have hspace : IsSpace " " ∧ IsSpace "\t" :=
    ⟨List.all_eq_true.mp (by decide), List.all_eq_true.mp (by decide)⟩
  have hdigits : ∀ c ∈ "３".toList, Text.isDecimal c.toNat = true := List.all_eq_true.mp (by decide)
  have hzeros : ∀ c ∈ "00".toList, Text.decimalValue? c.toNat = some 0 := by
    intro c hc
    obtain rfl : c = '0' := by simpa using hc
    decide
  have hname : Text.upper (Text.trim "high") = high.name := by decide
  refine ⟨reads_levels.overrides.refused _ _ _ rfl (by simp) hbad, ?_, ?_⟩
  · exact reads_levels.texts.zeros " " "00" "３" "\t" hspace.1 hspace.2 hzeros (by simp) hdigits (by decide)
  · exact (reads_levels.texts.spelled "high" high).mpr (.inr hname)

end Severity

end Polyscan
