import Polyscan.Proofs.Catalogue.Listing

/-!
Failures of listing rules. If every engine answers and no listener raises on an override event, there are two:
a breach of the engine contract, which names the engine, and an answer that cannot be iterated.
-/
namespace Polyscan

/-- The failure is a breach of the engine contract, and its text starts with the name of the engine. -/
def Fault.Accuses (engine : String) (f : Fault) : Prop :=
  f.kind = .contract ∧ ∃ complaint, f.text = "Engine '" ++ (engine ++ ("' returned " ++ complaint))

theorem accuses_malformed (engine report : String) :
    (Fault.contract (.malformedDescriptions engine report)).Accuses engine :=
  ⟨rfl, "rule descriptions that do not match the engine API: " ++ (report ++ ""), rfl⟩

theorem accuses_repeated (engine rule : String) :
    (Fault.contract (.repeatedRule engine rule)).Accuses engine :=
  ⟨rfl, "more than one rule with the name '" ++ (rule ++ ("'." ++ "")), rfl⟩

/-- The value is neither a list nor a string nor an object. -/
def Json.IsAtom : Json → Prop
  | .arr _ | .str _ | .obj _ => False
  | _ => True

/-- The values that cannot be iterated, and the failure for them. -/
theorem Json.elements_eq_error_iff {v : Json} {f : Fault} :
    v.elements = .error f ↔
      v.IsAtom ∧ f = .raised .type ("'" ++ v.kindName ++ "' object is not iterable") := by
  cases v <;> simp [elements, IsAtom, eq_comm]

namespace Analyzer

/-- Every engine answers when it is asked for its rules, and no listener raises on an override event. -/
structure Cooperates (a : Analyzer) (w : Workspace) : Prop where
  answers : ∀ engine ∈ a.engineNames, ∃ x, (a.answer w engine).outcome = .ok x
  takes : ∀ engine ∈ a.engineNames, ∀ ds, a.Describes w engine ds →
    (ds.map RuleDescription.name).Nodup → a.TakesAll (a.config.overrides engine ds)

/-- Why rules are not listed although engines answer and no listener raises: a breach of the contract that
names an engine, or an answer that cannot be iterated. -/
inductive Denied (a : Analyzer) (w : Workspace) : Fault → Prop
  | accused {engine : String} {f : Fault} (hengine : engine ∈ a.engineNames) (h : f.Accuses engine) :
      Denied a w f
  | atom {engine : String} {v : Json} (hengine : engine ∈ a.engineNames)
      (hanswer : (a.answer w engine).outcome = .ok (.data v)) (hatom : v.IsAtom) :
      Denied a w (.raised .type ("'" ++ v.kindName ++ "' object is not iterable"))

/-- A list of values is refused for the first one that is no description. -/
theorem descriptionsIn_accuses {engine : String} {vs : List Json} {f : Fault}
    (h : descriptionsIn engine vs = .error f) : f.Accuses engine := by
  induction vs with
  | nil => cases h
  | cons v rest ih =>
    unfold descriptionsIn at h
    split at h
    · next g _ =>
      cases h
      exact accuses_malformed engine g.text
    · cases hrest : descriptionsIn engine rest with
      | error g =>
        rw [hrest] at h
        cases h
        exact ih hrest
      | ok ds =>
        rw [hrest] at h
        cases h

theorem denied_of_malformed {a : Analyzer} {w : Workspace} {engine : String} {x : Described} {f : Fault}
    (hengine : engine ∈ a.engineNames) (hanswer : (a.answer w engine).outcome = .ok x)
    (h : checkDescribed engine x = .error f) : a.Denied w f := by
  cases x with
  | descriptions list => cases h
  | data v =>
    cases helements : v.elements with
    | error g =>
      have hg : g = f := by simpa [checkDescribed, helements, bind, Except.bind] using h
      obtain ⟨hatom, rfl⟩ := Json.elements_eq_error_iff.mp helements
      exact hg ▸ .atom hengine hanswer hatom
    | ok vs =>
      have hvs : descriptionsIn engine vs = .error f := by
        simpa [checkDescribed, helements, bind, Except.bind] using h
      exact .accused hengine (descriptionsIn_accuses hvs)

/-- If the rules of an engine cannot be listed, it is due to the answer of that engine. -/
theorem Cooperates.denied_of_listing {a : Analyzer} {w : Workspace} (h : a.Cooperates w)
    {o : String × List (Event LogLevel)} {f : Fault} (ho : o ∈ a.describings w)
    (hlisting : a.listingAfter w o.1 o.2 = .error f) : a.Denied w f := by
  obtain ⟨engine, prior⟩ := o
  have hengine : engine ∈ a.engineNames := mem_engineNames_iff_describings.mpr ⟨prior, ho⟩
  cases fails_of_listing (Nat.le_add_right _ _) hlisting with
  | raises hraises =>
    obtain ⟨x, hx⟩ := h.answers engine hengine
    rw [hx] at hraises
    cases hraises
  | malformed hanswer hbad => exact denied_of_malformed hengine hanswer hbad
  | repeated _ _ => exact .accused hengine (accuses_repeated engine _)
  | refused hdescribes hnodup _ hrefusal =>
    rw [firstRefusal_of_takesAll (h.takes engine hengine _ hdescribes hnodup)] at hrefusal
    cases hrefusal

/-- In a given workspace `allRules` lists the rules of all engines, or fails due to the answer of one. -/
theorem Cooperates.allRules_denied {a start : Analyzer} {choice : Option Workspace} {w : Workspace}
    (h : a.Cooperates w) (hchoice : (workspaceOr choice).drive start = (.ok w, a)) {f : Fault}
    (hf : ((allRules choice).drive start).1 = .error f) : a.Denied w f := by
  obtain ⟨outcome, b, hdrive, -, hcases⟩ := rulesIn_cases a w
  have hall : (allRules choice).drive start = (outcome, b) := by
    rw [allRules, Work.drive_bind, hchoice]
    exact hdrive
  rw [hall] at hf
  rcases hcases with ⟨rules, -, rfl⟩ | ⟨o, ho, g, hg, rfl⟩
  · cases hf
  · cases hf
    exact h.denied_of_listing ho hg

theorem Cooperates.select_denied {a start : Analyzer} {choice : Option Workspace} {w : Workspace}
    (h : a.Cooperates w) (selectors : List String)
    (hchoice : (workspaceOr choice).drive start = (.ok w, a)) {f : Fault}
    (hf : ((select selectors choice).drive start).1 = .error f) : a.Denied w f := by
  obtain ⟨outcome, b, hdrive, -, hcases⟩ := select_cases selectors hchoice
  rw [hdrive] at hf
  rcases hcases with ⟨rules, -, rfl⟩ | ⟨o, ho, g, hg, rfl⟩
  · cases hf
  · cases hf
    exact h.denied_of_listing ho hg

/-! ## One more listener -/

theorem takes_listen {a : Analyzer} {e : Event LogLevel} (h : a.Takes e) (topics : List Topic) :
    (a.listen topics fun _ => none).2.Takes e := by
  intro tick k hk
  -- the new listener has a new number and never raises; the others are unchanged
  by_cases hnew : k = a.listeners
  · simp [listen, hnew]
  · have hsubscribed : ∀ (ts : List Topic) (b : Bus Nat),
        k ∈ (ts.foldl (fun b t => b.subscribe t a.listeners) b).audience e.topic →
          k ∈ b.audience e.topic := by
      intro ts
      induction ts with
      | nil => exact fun _ h => h
      | cons t rest ih =>
        intro b hb
        have hk' := ih _ hb
        rw [Bus.audience_subscribe, List.mem_append] at hk'
        rcases hk' with hk' | hk'
        · exact hk'
        · split at hk'
          · exact absurd (List.mem_singleton.mp hk') hnew
          · cases hk'
    have hold := h tick k (hsubscribed topics a.bus hk)
    simpa [listen, hnew] using hold

/-- A new listener that never raises makes no difference. -/
theorem Cooperates.listen {a : Analyzer} {w : Workspace} (h : a.Cooperates w) (topics : List Topic) :
    (a.listen topics fun _ => none).2.Cooperates w where
  answers := h.answers
  takes := fun engine hengine ds hds hnodup e he =>
    takes_listen (h.takes engine hengine ds hds hnodup e he) topics

theorem denied_of_listen {a : Analyzer} {w : Workspace} {topics : List Topic} {f : Fault}
    (h : (a.listen topics fun _ => none).2.Denied w f) : a.Denied w f := by
  cases h with
  | accused hengine h => exact .accused hengine h
  | atom hengine hanswer hatom => exact .atom hengine hanswer hatom

end Analyzer

end Polyscan
