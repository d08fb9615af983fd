import Polyscan.PatternRule
import Polyscan.Proofs.Finding.Written

/-!
Validating the dump of a validated model. A model may be accepted in many spellings: with fields missing, null
or unknown, and with severities as numbers, truth values, digits or names. Its dump has every field in one
spelling, and the schema accepts the dump as the same model.
-/
namespace Polyscan.Schema

variable {α : Type} {schema : Json → Checked α} {dump : α → Json}

/-- The schema accepts the dump of every model as this model. -/
def ReadsBack (schema : Json → Checked α) (dump : α → Json) : Prop :=
  ∀ a, schema (dump a) = .good a

/-- The dump of an accepted value is accepted again, as the same model. -/
structure Stable (schema : Json → Checked α) (dump : α → Json) : Prop where
  /-- The dump of an accepted value is accepted as the same model. -/
  again : ∀ v a, schema v = .good a → schema (dump a) = .good a
  /-- This holds for every model, validated or not. -/
  readsBack : ReadsBack schema dump

theorem ReadsBack.stable (h : ReadsBack schema dump) : Stable schema dump where
  again _ a _ := h a
  readsBack := h

/-! ## Parts of every kind -/

theorem string_readsBack : ReadsBack string .str := fun _ => rfl

theorem wholeNumber_readsBack : ReadsBack wholeNumber .int := fun _ => rfl

theorem anything_readsBack : ReadsBack anything id := fun _ => rfl

theorem itemsFrom_readsBack (h : ReadsBack schema dump) (l : List α) (position : Nat) :
    itemsFrom schema position (l.map dump) = .good l := by
  rw [itemsFrom_good_iff, List.forall₂_map_left_iff, List.forall₂_same]
  intro a _
  exact h a

theorem ReadsBack.list (h : ReadsBack schema dump) :
    ReadsBack (list schema) fun l => .arr (l.map dump) := by
  intro l
  exact itemsFrom_readsBack h l 0

theorem ReadsBack.fieldsOf (h : ReadsBack schema dump) (entries : List (String × α)) :
    fieldsOf schema (entries.map fun e => (e.1, dump e.2)) = .good entries := by
  induction entries with
  | nil => rfl
  | cons e rest ih =>
    rw [List.map_cons, Schema.fieldsOf, h e.2, ih]
    rfl

theorem ReadsBack.table (h : ReadsBack schema dump) :
    ReadsBack (table schema) fun entries => .obj (entries.map fun e => (e.1, dump e.2)) :=
  h.fieldsOf

/-- Null may stand for an absent part if no part is dumped as null. -/
theorem ReadsBack.nullable (h : ReadsBack schema dump) (hnull : ∀ a, dump a ≠ .null) :
    ReadsBack (nullable schema) (.optional dump) := by
  intro part
  cases part with
  | none => rfl
  | some a =>
    have hread : Schema.nullable schema (dump a) = (schema (dump a)).map some := by
      cases hdump : dump a with
      | null => exact absurd hdump (hnull a)
      | _ => rfl
    rw [Json.optional, hread, h a]
    rfl

theorem strings_readsBack : ReadsBack strings .strings := string_readsBack.list

/-! ## Severities and types

A level is dumped as its number, which both readers accept. -/

theorem severityNumber_readsBack : ReadsBack severityNumber fun s => .nat s.number := by
  intro s
  cases s <;> rfl

theorem severitySpelling_readsBack : ReadsBack severitySpelling fun s => .nat s.number := by
  intro s
  cases s <;> rfl

theorem ruleType_readsBack : ReadsBack ruleType fun t => .str t.name := by
  intro t
  cases t <;> rfl

/-! ## Named fields

A dump has every field of its schema, so no default applies to it. -/

section

variable (schema : Json → Checked α) (name n : String) (v : Json) (rest : List (String × Json))

theorem required_cons :
    required ((n, v) :: rest) name schema =
      if n = name then (schema v).under (.field name) else required rest name schema := by
  by_cases h : n = name
  · simp only [required, OrderedMap.find, if_pos h]
  · simp only [required, OrderedMap.find, if_neg h]

theorem withDefault_cons (default : α) :
    withDefault ((n, v) :: rest) name default schema =
      if n = name then (schema v).under (.field name) else withDefault rest name default schema := by
  by_cases h : n = name
  · simp only [withDefault, OrderedMap.find, if_pos h]
  · simp only [withDefault, OrderedMap.find, if_neg h]

end

theorem under_good (step : Step) (a : α) : (Checked.good a).under step = .good a := rfl

theorem location_readsBack : ReadsBack location Location.toJson := by
  intro l
  have hlines := wholeNumber_readsBack.nullable fun _ => nofun
  simp only [location, Location.toJson, object, required_cons, withDefault_cons, String.reduceEq,
    reduceIte, string_readsBack _, wholeNumber_readsBack _, hlines _, under_good]
  rfl

theorem finding_readsBack : ReadsBack finding Finding.toJson := by
  intro f
  have hlocations := location_readsBack.list f.locations
  simp only [finding, Finding.toJson, object, required_cons, withDefault_cons, String.reduceEq,
    reduceIte, string_readsBack _, wholeNumber_readsBack _, hlocations, strings_readsBack _, under_good]
  rfl

theorem findings_readsBack : ReadsBack findings findingsToJson := by
  intro fs
  have hitems := finding_readsBack.list fs
  simp only [findings, findingsToJson, object, withDefault_cons, reduceIte, hitems, under_good]

theorem ruleDescription_readsBack : ReadsBack ruleDescription RuleDescription.toJson := by
  intro d
  simp only [ruleDescription, RuleDescription.toJson, object, required_cons, withDefault_cons,
    String.reduceEq, reduceIte, string_readsBack _, severityNumber_readsBack _, ruleType_readsBack _,
    strings_readsBack _, under_good]
  rfl

theorem ruleOverride_readsBack : ReadsBack ruleOverride RuleOverride.toJson := by
  intro o
  have hseverity := severitySpelling_readsBack.nullable (fun _ => nofun) o.severity
  have htags := strings_readsBack.nullable (fun _ => nofun) o.tags
  simp only [ruleOverride, RuleOverride.toJson, object, withDefault_cons, String.reduceEq, reduceIte,
    hseverity, htags, under_good]
  rfl

theorem config_readsBack : ReadsBack config Config.toJson := by
  intro c
  have hengines := anything_readsBack.table.table c.engines
  have hrules := ruleOverride_readsBack.table.table c.rules
  simp only [id, Prod.eta, List.map_id'] at hengines
  simp only [config, Config.toJson, object, withDefault_cons, String.reduceEq, reduceIte, hengines,
    hrules, under_good]
  rfl

theorem customRule_readsBack : ReadsBack customRule CustomRule.toJson := by
  intro c
  have hmessage := string_readsBack.nullable (fun _ => nofun) c.message
  have hextensions := strings_readsBack.nullable (fun _ => nofun) c.extensions
  simp only [customRule, CustomRule.toJson, object, required_cons, withDefault_cons, String.reduceEq,
    reduceIte, string_readsBack _, hmessage, hextensions, severitySpelling_readsBack _,
    strings_readsBack _, under_good]
  rfl

/-! ## All checked data -/

/-- Validation of the dump of each of the six models. -/
structure DumpsStable : Prop where
  described : Stable ruleDescription RuleDescription.toJson
  found : Stable finding Finding.toJson
  reported : Stable findings findingsToJson
  overridden : Stable ruleOverride RuleOverride.toJson
  configured : Stable config Config.toJson
  declared : Stable customRule CustomRule.toJson

/-- The dump of a validated model is validated to the same model, for all six models. -/
theorem dumps_stable : DumpsStable where
  described := ruleDescription_readsBack.stable
  found := finding_readsBack.stable
  reported := findings_readsBack.stable
  overridden := ruleOverride_readsBack.stable
  configured := config_readsBack.stable
  declared := customRule_readsBack.stable

deriving instance DecidableEq for Checked

/-- A custom rule with a padded level in mixed case, a null field and missing fields. -/
def paddedRule : Json :=
  .obj [("regex", .str "\t"), ("description", .str ""), ("file_extensions", .null),
    ("severity", .str " hIgH\t")]

/-- Overrides with a null, a digit of another script and a truth value as level. -/
def oddLevels : Json :=
  .obj [("extra", .int 1), ("rules", .obj [("regex", .obj [("Tabs", .obj [("severity", .null)]),
    ("Tasks", .obj [("severity", .str " ３ ")]), ("Ends", .obj [("severity", .bool true)])])])]

def oddConfig : Config where
  rules := [("regex",
    [("Tabs", {}), ("Tasks", { severity := some .moderate }), ("Ends", { severity := some .critical })])]

/-- The dumps of these two values have one spelling and are validated to the same models. -/
theorem dumps_stable_spellings :
    customRule paddedRule = .good ⟨"\t", "", none, none, .high, ["Recommended"]⟩ ∧
      customRule (CustomRule.toJson ⟨"\t", "", none, none, .high, ["Recommended"]⟩) =
        .good ⟨"\t", "", none, none, .high, ["Recommended"]⟩ ∧
      config oddLevels = .good oddConfig ∧ config oddConfig.toJson = .good oddConfig := by
  have hrule : customRule paddedRule = .good ⟨"\t", "", none, none, .high, ["Recommended"]⟩ := by
    decide +kernel
  have hconfig : config oddLevels = .good oddConfig := rfl
  exact ⟨hrule, dumps_stable.declared.again _ _ hrule, hconfig, dumps_stable.configured.again _ _ hconfig⟩

end Polyscan.Schema
