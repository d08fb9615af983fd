import Polyscan.Proofs.Registration.Alone

/-!
Containment of failures in `addPlugin`. A listed name without an engine of its own has one error event and is
left out, and the other names are registered as if it were not listed. Only an engine that raises when it is
asked for its name is not contained: there is no event for it, and the whole call fails with its fault.
-/
namespace Polyscan.Analyzer

open Registering

/-! ## Good and bad names -/

/-- The error event for a listed name that is not registered: it is taken, or no engine of this name was made. -/
inductive Complaint (name : String) (made : Except Fault Engine) : Event LogLevel → Prop
  | taken : Complaint name made (.log .error (Diagnostic.duplicateEngine name).text)
  | failed {f : Fault} (h : made = .error f) :
      Complaint name made (.log .error (Diagnostic.createEngine name f.text).text)
  | misnamed {engine : Engine} {reported : String} (h : made = .ok engine)
      (hname : engine.reportedName = .ok reported) (hne : reported ≠ name) :
      Complaint name made (.log .error (Diagnostic.nameContradiction name reported).text)

/-- The engine that is made reports the name. -/
def IsOwn (name : String) (made : Except Fault Engine) : Prop :=
  ∃ engine, made = .ok engine ∧ engine.reportedName = .ok name

/-- The engine that is made raises when it is asked for its name. -/
def IsMute (made : Except Fault Engine) : Prop :=
  ∃ engine f, made = .ok engine ∧ engine.reportedName = .error f

/-- The engine that is made for the name at a position of a call, or the failure of making it. -/
def madeAt (a : Analyzer) (makes : Nat → String → EngineConfig → Delayed Engine) (i : Nat) (name : String) :
    Except Fault Engine :=
  (makes i name (a.config.engine name)).outcome

/-- The effect of `addPlugin`. Each listed position has one ending. An ending without an engine of its own
adds no entry. Every ending without an entry has one error event for its name, unless its engine `IsMute`. A
name is registered afterwards if and only if it was before or an engine of its own was made, new names with an
engine that was made for them. Entries from before are unchanged, and the events are those of the endings. -/
structure Contained (a : Analyzer) (p : Plugin) (names : List String)
    (makes : Nat → String → EngineConfig → Delayed Engine) (ds : List Ended) (b : Analyzer) : Prop where
  once : (ds.map Ended.position).Perm (List.range names.length)
  listed : ∀ d ∈ ds, names[d.position]? = some d.name
  emitted : Emits (p.warnings names ++ ds.filterMap Ended.event?) a b
  omitted : ∀ d ∈ ds, ¬ IsOwn d.name (a.madeAt makes d.position d.name) → d.entry? = none
  complained : ∀ d ∈ ds, d.entry? = none → ¬ IsMute (a.madeAt makes d.position d.name) →
    ∃ e, d.event? = some e ∧ Complaint d.name (a.madeAt makes d.position d.name) e
  registered : ∀ name, name ∈ b.engineNames ↔
    name ∈ a.engineNames ∨ ∃ i, names[i]? = some name ∧ IsOwn name (a.madeAt makes i name)
  fresh : ∀ name ∈ b.engineNames, name ∉ a.engineNames → ∃ i engine, names[i]? = some name ∧
    a.madeAt makes i name = .ok engine ∧ engine.reportedName = .ok name ∧
      b.slots.get? name = some (.fresh (a.config.engine name) engine true)
  kept : ∀ name ∈ a.engineNames, b.slots.get? name = a.slots.get? name

variable {a b : Analyzer} {p : Plugin} {names : List String} {name : String} {config : EngineConfig}
variable {makes : Nat → String → EngineConfig → Delayed Engine} {made : Except Fault Engine} {taken : Prop}
variable {e : Ending} {d : Ended} {is : List Nat}

/-! ## One name -/

/-- An ending adds an entry only for an engine that reports the name. -/
theorem own_of_entry {slot : Slot} (h : Ending.Due name config made taken e)
    (hentry : e.entry? name = some (name, slot)) :
    ∃ engine, made = .ok engine ∧ engine.reportedName = .ok name ∧ slot = .fresh config engine true := by
  cases h with
  | @kept engine hmade hname _ =>
    cases hentry
    exact ⟨engine, hmade, hname, rfl⟩
  | _ => cases hentry

theorem entry?_isSome_iff (h : Ending.Due name config made taken e) :
    (e.entry? name).isSome = true ↔ IsOwn name made ∧ ¬ taken := by
  cases h with
  | refused htaken => simp [Ending.entry?, htaken]
  | failed hmade => simp [Ending.entry?, IsOwn, hmade]
  | nameless hmade hname => simp [Ending.entry?, IsOwn, hmade, hname]
  | misnamed hmade hname hne => simp [Ending.entry?, IsOwn, hmade, hname, hne]
  | late hmade hname htaken => simp [Ending.entry?, htaken]
  | kept hmade hname hfree => simp [Ending.entry?, IsOwn, hmade, hname, hfree]

/-- An ending without an entry has an error event, unless its engine `IsMute`. -/
theorem complaint_of_due (h : Ending.Due name config made taken e) (hentry : e.entry? name = none)
    (hmute : ¬ IsMute made) : ∃ ev, e.event? name = some ev ∧ Complaint name made ev := by
  cases h with
  | refused | late => exact ⟨_, rfl, .taken⟩
  | failed hmade => exact ⟨_, rfl, .failed hmade⟩
  | nameless hmade hname => exact absurd ⟨_, _, hmade, hname⟩ hmute
  | misnamed hmade hname hne => exact ⟨_, rfl, .misnamed hmade hname hne⟩
  | kept => cases hentry

theorem mute_of_result {f : Fault} (h : Ending.Due name config made taken e) (hresult : e.result = .error f) :
    ∃ engine, made = .ok engine ∧ engine.reportedName = .error f := by
  cases h with
  | nameless hmade hname =>
    cases hresult
    exact ⟨_, hmade, hname⟩
  | _ => cases hresult

/-! ## All names -/

/-- Every ending of a call is the one that is due for the engine that was made. -/
theorem due_of_mem (hnames : p.names = .ok names) (hquiet : ∀ level text, a.Takes (.log level text))
    (hd : d ∈ (a.calling p makes).endings is) :
    names[d.position]? = some d.name ∧
      ∃ taken, Ending.Due d.name (a.config.engine d.name) (a.madeAt makes d.position d.name) taken d.ending := by
  obtain ⟨before, after, hsplit⟩ := List.append_of_mem hd
  obtain ⟨hname, hdue⟩ := calling_due hnames hquiet hsplit
  exact ⟨hname, _, hdue⟩

/-- The entries that a call adds are for names with an engine of their own. -/
theorem own_of_mem {slot : Slot} (hnames : p.names = .ok names)
    (hquiet : ∀ level text, a.Takes (.log level text))
    (hmem : (name, slot) ∈ ((a.calling p makes).endings is).filterMap Ended.entry?) :
    ∃ i engine, names[i]? = some name ∧ a.madeAt makes i name = .ok engine ∧
      engine.reportedName = .ok name ∧ slot = .fresh (a.config.engine name) engine true := by
  obtain ⟨⟨i, name', e⟩, hd, hentry⟩ := List.mem_filterMap.mp hmem
  obtain ⟨hname, taken, hdue⟩ := due_of_mem hnames hquiet hd
  have hsame : name' = name := by
    cases e with
    | kept config engine =>
      cases hentry
      rfl
    | _ => cases hentry
  subst hsame
  obtain ⟨engine, hmade, hreported, hslot⟩ := own_of_entry hdue hentry
  exact ⟨i, engine, hname, hmade, hreported, hslot⟩

/-- A name with an engine of its own is registered by this call or before. -/
theorem mem_engineNames_of_own {i : Nat} (hnames : p.names = .ok names)
    (hquiet : ∀ level text, a.Takes (.log level text))
    (hall : ∀ i < names.length, ((a.calling p makes).turns is).Finished i)
    (hname : names[i]? = some name) (hown : IsOwn name (a.madeAt makes i name)) :
    name ∈ a.engineNames ∨ ∃ slot, (name, slot) ∈ ((a.calling p makes).endings is).filterMap Ended.entry? := by
  have hentered : ∀ k ∈ (a.calling p makes).endings is, k.name = name → k.entry?.isSome = true →
      ∃ slot, (name, slot) ∈ ((a.calling p makes).endings is).filterMap Ended.entry? := by
    intro k hk hkname hentry
    obtain ⟨⟨name', slot⟩, hslot⟩ := Option.isSome_iff_exists.mp hentry
    have hsame : name' = k.name := by
      obtain ⟨position, own, e⟩ := k
      cases e with
      | kept config engine =>
        cases hslot
        rfl
      | _ => cases hslot
    rw [hsame, hkname] at hslot
    exact ⟨slot, List.mem_filterMap.mpr ⟨k, hk, hslot⟩⟩
  have hi : i ∈ ((a.calling p makes).endings is).map Ended.position := by
    rw [(calling_once (openPlugin_of_names hnames hquiet).1 hall).mem_iff, List.mem_range]
    exact (List.getElem?_eq_some_iff.mp hname).1
  obtain ⟨d, hd, rfl⟩ := List.mem_map.mp hi
  obtain ⟨before, after, hsplit⟩ := List.append_of_mem hd
  obtain ⟨hname', hdue⟩ := calling_due hnames hquiet hsplit
  obtain rfl : d.name = name := Option.some.inj (hname'.symm.trans hname)
  by_cases htaken : d.name ∈ a.engineNames ∨ ∃ k ∈ before, k.name = d.name ∧ k.entry?.isSome = true
  · rcases htaken with hold | ⟨k, hk, hkname, hentry⟩
    · exact .inl hold
    · exact .inr (hentered k (hsplit ▸ List.mem_append_left _ hk) hkname hentry)
  · exact .inr (hentered d hd rfl ((entry?_isSome_iff hdue).mpr ⟨hown, htaken⟩))

/-- Under every order of turns, failures are contained once all attempts are finished. -/
theorem calling_contained (hnames : p.names = .ok names) (hquiet : ∀ level text, a.Takes (.log level text))
    (hall : ∀ i < names.length, ((a.calling p makes).turns is).Finished i) :
    Contained a p names makes ((a.calling p makes).endings is) ((a.calling p makes).turns is).analyzer := by
  obtain ⟨hopen, hemitted⟩ := openPlugin_of_names hnames hquiet
  have hentries : ((a.calling p makes).turns is).analyzer.slots.entries = _ :=
    calling_entries hnames hquiet is
  have hfound : ∀ {name slot}, ((a.calling p makes).turns is).analyzer.slots.get? name = some slot ↔
      a.slots.get? name = some slot ∨
        (name, slot) ∈ ((a.calling p makes).endings is).filterMap Ended.entry? := by
    intro name slot
    rw [OrderedMap.get?_eq_some_iff, OrderedMap.get?_eq_some_iff, hentries, List.mem_append]
  have hregistered : ∀ {name}, name ∈ ((a.calling p makes).turns is).analyzer.engineNames ↔
      name ∈ a.engineNames ∨
        ∃ slot, (name, slot) ∈ ((a.calling p makes).endings is).filterMap Ended.entry? := by
    intro name
    unfold engineNames
    rw [OrderedMap.mem_keys_iff, OrderedMap.mem_keys_iff, ← exists_or]
    exact exists_congr fun slot => hfound
  refine ⟨calling_once hopen hall, fun d hd => (due_of_mem hnames hquiet hd).1, hemitted.trans (turns_emit is),
    ?_, ?_, ?_, ?_, ?_⟩
  · intro d hd hnot
    obtain ⟨-, taken, hdue⟩ := due_of_mem hnames hquiet hd
    by_contra hentry
    exact hnot ((entry?_isSome_iff hdue).mp (Option.isSome_iff_ne_none.mpr hentry)).1
  · intro d hd hentry hmute
    obtain ⟨-, taken, hdue⟩ := due_of_mem hnames hquiet hd
    exact complaint_of_due hdue hentry hmute
  · intro name
    rw [hregistered]
    constructor
    · rintro (hold | ⟨slot, hslot⟩)
      · exact .inl hold
      · obtain ⟨i, engine, hname, hmade, hreported, -⟩ := own_of_mem hnames hquiet hslot
        exact .inr ⟨i, hname, engine, hmade, hreported⟩
    · rintro (hold | ⟨i, hname, hown⟩)
      · exact .inl hold
      · exact mem_engineNames_of_own hnames hquiet hall hname hown
  · intro name hmem hnew
    obtain ⟨slot, hslot⟩ := (hregistered.mp hmem).resolve_left hnew
    obtain ⟨i, engine, hname, hmade, hreported, rfl⟩ := own_of_mem hnames hquiet hslot
    exact ⟨i, engine, hname, hmade, hreported, hfound.mpr (.inr hslot)⟩
  · intro name hold
    obtain ⟨slot, hslot⟩ := OrderedMap.mem_keys_iff.mp hold
    rw [hslot]
    exact hfound.mpr (.inl hslot)

/-- Containment of failures in `addPlugin`, where no listener raises on log messages, for every plugin whose
names can be listed. Under every order of turns in which all attempts finish the effect is that of
`Contained`. `addPlugin` run alone has this effect as well; it returns if no engine that is made `IsMute`. It
returns if and only if every ending has an event, and a failure is that of an engine that raised when it was
asked for its name. -/
theorem addPlugin_contains (hnames : p.names = .ok names) (hquiet : ∀ level text, a.Takes (.log level text)) :
    (∀ makes is, (∀ i < names.length, ((a.calling p makes).turns is).Finished i) →
      Contained a p names makes ((a.calling p makes).endings is) ((a.calling p makes).turns is).analyzer) ∧
    ∃ r ds b, (addPlugin p).drive a = (r, b) ∧ Contained a p names (fun _ => p.make) ds b ∧
      ((∀ i name, names[i]? = some name → ¬ IsMute (a.madeAt (fun _ => p.make) i name)) → r = .ok ()) ∧
      (r = .ok () ↔ ∀ d ∈ ds, ∃ e, d.event? = some e) ∧
      ∀ f, r = .error f → ∃ d ∈ ds, ∃ engine,
        a.madeAt (fun _ => p.make) d.position d.name = .ok engine ∧ engine.reportedName = .error f := by
  refine ⟨fun makes is hall => calling_contained hnames hquiet hall, ?_⟩
  obtain ⟨is, r, hdrive, hall, hr⟩ := addPlugin_course hnames hquiet
  have hblame : ∀ f, r = .error f → ∃ d ∈ (a.calling p fun _ => p.make).endings is, ∃ engine,
      a.madeAt (fun _ => p.make) d.position d.name = .ok engine ∧ engine.reportedName = .error f := by
    rintro f rfl
    rcases hr with ⟨hok, -⟩ | ⟨g, hg, d, hd, hend⟩
    · cases hok
    · cases hg
      obtain ⟨-, taken, hdue⟩ := due_of_mem hnames hquiet hd
      exact ⟨d, hd, mute_of_result hdue hend⟩
  refine ⟨r, _, _, hdrive, calling_contained hnames hquiet hall, ?_, ?_, hblame⟩
  · intro hsay
    cases r with
    | ok u => rfl
    | error f =>
      obtain ⟨d, hd, engine, hmade, hmute⟩ := hblame f rfl
      exact absurd ⟨engine, f, hmade, hmute⟩ (hsay _ _ (due_of_mem hnames hquiet hd).1)
  · have hemitted : ∀ d : Ended, (∃ e, d.event? = some e) ↔ d.ending.result = .ok () := by
      intro d
      rw [Ending.result_eq_ok_iff, ← Option.isSome_iff_exists]
      rfl
    simp only [hemitted]
    rcases hr with ⟨rfl, hends⟩ | ⟨f, rfl, d, hd, hend⟩
    · exact iff_of_true rfl hends
    · refine iff_of_false nofun fun hends => ?_
      rw [hends d hd] at hend
      cases hend

/-- The call returns although three of the four listed names are not registered. -/
theorem addPlugin_contains_mixed :
    ∃ ds b, (addPlugin mixedPlugin).drive noListeners = (.ok (), b) ∧
      Contained noListeners mixedPlugin ["tabs", "tabs", "lines", "words"] (fun _ => mixedPlugin.make) ds b := by
  have hquiet : ∀ level text, noListeners.Takes (.log level text) := by
    intro level text tick k hk
    cases hk
  obtain ⟨-, r, ds, b, hdrive, hcontained, hok, -⟩ := addPlugin_contains (p := mixedPlugin) rfl hquiet
  have hsay : ∀ i name, ["tabs", "tabs", "lines", "words"][i]? = some name →
      ¬ IsMute (noListeners.madeAt (fun _ => mixedPlugin.make) i name) := by
    rintro i name - ⟨engine, f, hmade, hmute⟩
    simp only [madeAt, mixedPlugin] at hmade
    split at hmade <;> cases hmade
    cases hmute
  exact ⟨ds, b, hok hsay ▸ hdrive, hcontained⟩

/-- A plugin with two names. The engine for the first one raises when it is asked for its name. -/
def nameRaisesPlugin : Plugin where
  names := .ok ["mute", "tabs"]
  make name _ :=
    { outcome := .ok (.external
        { name := if name = "mute" then .error (.raised .runtime "No name.") else .ok name
          describe := fun _ => { outcome := .ok (.arr []) }
          run := fun _ _ => { report := .ok (.findings []) } }) }

/-- The names can be listed and no listener raises, but the call fails. Its only event is that of the other
name. -/
theorem addPlugin_lets_through :
    nameRaisesPlugin.names = .ok ["mute", "tabs"] ∧ (∀ level text, noListeners.Takes (.log level text)) ∧
      ∃ b, (addPlugin nameRaisesPlugin).drive noListeners = (.error (.raised .runtime "No name."), b) ∧
        b.engineNames = ["tabs"] ∧ Emits [addedEvent "tabs"] noListeners b := by
  refine ⟨rfl, ?_, _, rfl, rfl, rfl, rfl, rfl⟩
  intro level text tick k hk
  cases hk

end Polyscan.Analyzer
