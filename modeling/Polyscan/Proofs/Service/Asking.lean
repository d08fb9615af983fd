import Polyscan.Proofs.Audit
import Polyscan.Proofs.Service

/-!
What clients ask for can be asked: a request that is written out as data is read back as what it asks for.
-/
namespace Polyscan.Http

open Schema

/-- A request of a method to a path, with data in its body. -/
def Request.posting (path : String) (v : Json) : Request := { method := "POST", path, body := v.render }

/-- Asks for the rules that selectors pick. -/
def Request.forRules (q : RulesRequest) : Request := .posting "/rules" q.toJson

/-- Asks for a run of the rules that selectors pick. -/
def Request.forRun (q : RunRequest) : Request := .posting "/run" q.toJson

theorem readBody_posting (path : String) {fields : List (String × Json)} (h : Json.Notable (.obj fields)) :
    readBody (.posting path (.obj fields)) = .ok (.obj fields) := by
  have htext : (Json.render (.obj fields)).toList = (Json.obj fields).write := String.toList_ofList
  have hfilled : (Json.render (.obj fields)).isEmpty = false := by
    rw [← Bool.not_eq_true, String.isEmpty_iff, ← String.toList_inj, htext]
    simp [Json.write]
  have hmark : withoutMark (Json.obj fields).write = (Json.obj fields).write := rfl
  have htype : isJsonType "application/json" = true := rfl
  unfold readBody Request.posting
  simp only [hfilled, htype, htext, hmark, Json.read_write h]
  rfl

theorem strings_good (texts : List String) : strings (Json.strings texts) = .good texts := by
  refine list_good_iff.mpr ⟨_, rfl, ?_⟩
  rw [List.forall₂_map_left_iff]
  exact List.forall₂_same.mpr fun _ _ => rfl

theorem field_good {fields : List (String × Json)} {name : String} (texts : List String)
    (h : OrderedMap.find name fields = some (.strings texts)) :
    withDefault fields name [] strings = .good texts :=
  withDefault_good_iff.mpr (.inr ⟨_, h, strings_good texts⟩)

/-- Fields that pass a check are read from a body as what they were checked to be. -/
theorem parseBody_posting {α : Type} {schema : List (String × Json) → Checked α} {x : α} (path : String)
    {fields : List (String × Json)} (h : Json.Notable (.obj fields)) (hgood : schema fields = .good x) :
    parseBody schema (.posting path (.obj fields)) = .ok x := by
  unfold parseBody
  rw [readBody_posting path h]
  simp only [bind, Except.bind, hgood]
  rfl

theorem notableItems_texts (texts : List String) : Json.NotableItems (texts.map .str) :=
  AuditEntry.notableItems_strings fun t _ => Json.pairless_string t

theorem asksRules_forRules (q : RulesRequest) : AsksRules (.forRules q) q where
  route := show Route.ofPath? "/rules" = some .rules from rfl
  method := rfl
  body := by
    have hname := Json.pairless_string
    have hlist := notableItems_texts
    refine parseBody_posting "/rules"
      ⟨by simp, hname _, hlist _, hname _, hlist _, trivial⟩ ?_
    rw [rulesFields, field_good q.selectors rfl, field_good q.workspace rfl]
    rfl

/-- A run is asked for in a workspace that is not empty. -/
theorem asksRun_forRun {q : RunRequest} (hq : q.workspace ≠ []) : AsksRun (.forRun q) q where
  route := show Route.ofPath? "/run" = some .run from rfl
  method := rfl
  body := by
    have hfilled : filled strings (.strings q.workspace) = .good q.workspace := by
      unfold filled
      rw [strings_good]
      split
      · next hnil => exact absurd (Checked.good.inj hnil) hq
      · rfl
    have hworkspace : required [("selectors", .strings q.selectors), ("workspace", .strings q.workspace),
        ("path_start_points", .strings q.startPoints)] "workspace" (filled strings) = .good q.workspace :=
      required_good_iff.mpr ⟨_, rfl, hfilled⟩
    have hname := Json.pairless_string
    have hlist := notableItems_texts
    refine parseBody_posting "/run"
      ⟨by simp, hname _, hlist _, hname _, hlist _, hname _, hlist _, trivial⟩ ?_
    rw [runFields, field_good q.selectors rfl, hworkspace, field_good q.startPoints rfl]
    rfl

/-- What a body asks for are fields that pass the check. -/
theorem parseBody_fields {α : Type} {schema : List (String × Json) → Checked α} {r : Request} {x : α}
    (h : parseBody schema r = .ok x) : ∃ fields, schema fields = .good x := by
  unfold parseBody at h
  rcases hread : readBody r with e | v
  · rw [hread] at h
    cases h
  · rw [hread] at h
    cases v with
    | obj fields =>
      refine ⟨fields, ?_⟩
      simp only [bind, Except.bind] at h
      cases hchecked : schema fields with
      | good y =>
        rw [hchecked] at h
        cases h
        rfl
      | bad issues =>
        rw [hchecked] at h
        cases h
    | _ => cases h

/-- A run is asked for in some workspace. -/
theorem AsksRun.workspace_ne_nil {r : Request} {p : RunRequest} (h : AsksRun r p) : p.workspace ≠ [] := by
  obtain ⟨fields, hfields⟩ := parseBody_fields h.body
  simp only [runFields, seq_good_iff, map_good_iff, required_good_iff] at hfields
  obtain ⟨_, points, ⟨_, paths, ⟨selectors, -, rfl⟩, ⟨v, -, hpaths⟩, rfl⟩, -, rfl⟩ := hfields
  intro hnil
  unfold filled at hpaths
  split at hpaths
  · cases hpaths
  · next hsome => exact hsome (hpaths ▸ congrArg Checked.good hnil)

end Polyscan.Http
