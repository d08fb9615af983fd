import Polyscan.Proofs.Sharing.Interleaving
import Polyscan.Proofs.Work
import Polyscan.Service.Startup

/-!
The shared analyzer while it is built. Plugins are added to an analyzer that only the building request has, so
no request meets it half equipped; if a plugin cannot be added, that analyzer is dropped, and the building
request fails.
-/
namespace Polyscan

namespace Work

variable {σ τ α : Type}

/-- Work on a state of its own ends with the state in which it ends alone, or with the same failure. -/
theorem ends_withOwn (w : Work σ α) (s : σ) (t : τ) :
    (w.withOwn s : Work τ σ).Ends (fun _ r => r = (w.drive s).1.map fun _ => (w.drive s).2) t := by
  induction w generalizing s t with
  | done r => cases r <;> rfl
  | get next ih => exact ih s s t
  | put s' next ih => exact ih s' t
  | wait ready next ih => exact fun t => ih s t

/-- Work on a state of its own leaves the shared state unchanged. -/
theorem Law.abides_withOwn (l : Law τ) (w : Work σ α) (s : σ) : l.Abides (w.withOwn s : Work τ σ) := by
  induction w generalizing s with
  | done r => cases r <;> exact .done _
  | get next ih => exact ih s s
  | put s' next ih => exact ih s'
  | wait ready next ih => exact (ih s).wait

end Work

namespace Startup

open Analyzer Sharing Work

/-- The analyzer after the plugins of modules were added in order, all of them. Each module is loaded on the
machine as it is at that moment. -/
inductive Equipped : List String → Analyzer → Analyzer → Prop
  | nil (a : Analyzer) : Equipped [] a a
  | cons {reference : String} {rest : List String} {host : Host} {a b c : Analyzer}
      (hadded : (addModule reference).drive { a with host } = (.ok (), b)) (hrest : Equipped rest b c) :
      Equipped (reference :: rest) a c

/-- The failure with which one of the modules cannot be added, after those before it were. -/
inductive Foiled : List String → Analyzer → Fault → Prop
  | here {reference : String} {rest : List String} {host : Host} {a b : Analyzer} {f : Fault}
      (hfailed : (addModule reference).drive { a with host } = (.error f, b)) :
      Foiled (reference :: rest) a f
  | later {reference : String} {rest : List String} {host : Host} {a b : Analyzer} {f : Fault}
      (hadded : (addModule reference).drive { a with host } = (.ok (), b)) (hrest : Foiled rest b f) :
      Foiled (reference :: rest) a f

/-- The outcome of adding modules to an analyzer. -/
def Outcome (references : List String) (a : Analyzer) : Except Fault Analyzer → Prop
  | .ok b => Equipped references a b
  | .error f => Foiled references a f

theorem Outcome.cons {reference : String} {rest : List String} {host : Host} {a b : Analyzer}
    {r : Except Fault Analyzer} (hadded : (addModule reference).drive { a with host } = (.ok (), b))
    (hrest : Outcome rest b r) : Outcome (reference :: rest) a r := by
  cases r with
  | ok c => exact Equipped.cons hadded hrest
  | error f => exact Foiled.later hadded hrest

/-- Under every interleaving, modules are added in order, up to the first one that cannot be added. -/
theorem ends_addModules (references : List String) (a : Analyzer) (s : Startup) :
    (addModules references a).Ends (fun _ => Outcome references a) s := by
  induction references generalizing a s with
  | nil => exact Equipped.nil a
  | cons reference rest ih =>
    have hfirst := ends_withOwn (addModule reference) { a with host := s.host } s
    rcases hadding : (addModule reference).drive { a with host := s.host } with ⟨f | ⟨⟩, b⟩
    · rw [hadding] at hfirst
      refine hfirst.bind (fun _ _ hok => nomatch hok) fun f' _ herror => ?_
      cases herror
      exact Foiled.here hadding
    · rw [hadding] at hfirst
      refine hfirst.bind (fun c t hok => ?_) fun _ _ herror => nomatch herror
      cases hok
      exact (ih b t).mono fun _ _ => .cons hadding

/-- The outcome of a build that began in a state. -/
def Built (since _last : Startup) (r : Except Fault Analyzer) : Prop :=
  Outcome since.settings.plugins since.fresh r

theorem ends_build (s : Startup) : build.Ends (Built s) (spot.lock s) :=
  ends_addModules s.settings.plugins s.fresh (spot.lock s)

theorem lawful_spot : spot.Lawful where
  look_store _ _ := rfl

/-- A build does not write the shared state. -/
theorem apart_build : spot.apart.Abides build := by
  refine .get fun s => ?_
  have hmodules : ∀ references a, spot.apart.Abides (addModules references a) := by
    intro references
    induction references with
    | nil => exact fun a => .pure a
    | cons reference rest ih => exact fun a => .get fun s => (Law.abides_withOwn _ _ _).bind ih
  exact hmodules _ _

/-- The invariant of the shared analyzer. -/
structure SharesAnalyzer (st : Sharing Startup Analyzer) : Prop where
  /-- A request that has not had a turn yet has all of `obtain` before it. -/
  whole : ∀ c ∈ st.callers, c.stage = .fresh → c.work = obtain
  /-- At most one request builds at a time, and no analyzer is visible meanwhile. -/
  hidden : (st.callers.countP fun c => c.stage.makes) ≤ 1 ∧
    ∀ c ∈ st.callers, c.stage.makes = true → st.state.analyzer.value = none
  /-- The visible analyzer was built by one request, with every plugin added in order; no other request has
  built one. -/
  visible : (st.callers.countP fun c => c.stage.succeeded) ≤ 1 ∧
    ∀ a, st.state.analyzer.value = some a → ∃ c ∈ st.callers, ∃ since last,
      c.stage = .made since last (.ok a) ∧ Equipped since.settings.plugins since.fresh a
  /-- A request that returns has the visible analyzer. -/
  returned : ∀ c ∈ st.callers, ∀ a, c.work.result? = some (.ok a) → st.state.analyzer.value = some a
  /-- A request that fails was building, and a plugin could not be added. -/
  failed : ∀ c ∈ st.callers, ∀ f, c.work.result? = some (.error f) → ∃ since last,
    c.stage = .made since last (.error f) ∧ Foiled since.settings.plugins since.fresh f
  /-- A request that fails in its turn leaves nothing behind. -/
  cleared : ∀ i c, st.callers[i]? = some c → c.work.result? = none → ∀ f,
    (c.turn spot build st.state).work.result? = some (.error f) → (st.turn spot build i).state.analyzer = {}
  /-- After that, the next request to have a turn starts a new build. -/
  anew : st.state.analyzer = {} → ∀ c ∈ st.callers, c.work.result? = none →
    (c.turn spot build st.state).stage.since? = some st.state

variable {s : Startup} {st : Sharing Startup Analyzer}

/-- The shared analyzer under every interleaving of its requests and every change of the machine: `obtain`
gives the same analyzer to all requests that are answered, and it is not visible before all configured plugins
were added in order. A failure of a build is answered to the request that was building and to no other, and
the next request builds anew. -/
theorem shares_analyzer (hnew : s.analyzer = {}) (moves : List (Occurrence Startup))
    (hst : ({ state := s } : Sharing Startup Analyzer).play spot build moves = st) : SharesAnalyzer st := by
  have h : st.Orderly spot build Built :=
    hst ▸ (orderly_start hnew).play lawful_spot ends_build apart_build moves
  refine
    { whole := fun c hc hfresh => ?_
      hidden := ⟨?_, fun c hc hmakes => h.vacant (h.locked hc hmakes)⟩
      visible := ⟨?_, fun a ha => ?_⟩
      returned := fun c hc a hresult => ?_
      failed := fun c hc f hresult => ?_
      cleared := fun i c hi hwaits f hfailed => ?_
      anew := fun hnew c hc hwaits => h.begins lawful_spot hc hwaits hnew }
  · rw [h.work c hc, hfresh]
    rfl
  · rw [h.holders]
    exact Bool.toNat_le _
  · rw [h.makers]
    exact Bool.toNat_le _
  · obtain ⟨c, hc, since, last, hmade, hequipped⟩ := h.maker ha
    exact ⟨c, hc, since, last, hmade, hequipped⟩
  · rcases h.result hc hresult with ⟨b, hb, hvalue⟩ | ⟨f, since, last, hf, -⟩
    · cases hb
      exact hvalue
    · cases hf
  · rcases h.result hc hresult with ⟨b, hb, -⟩ | ⟨f', since, last, hf, hmade, hfoiled⟩
    · cases hb
    · cases hf
      exact ⟨since, last, hmade, hfoiled⟩
  · exact h.cleared lawful_spot ends_build apart_build hi hwaits hfailed

/-- A plugin without engines. -/
def idle : Plugin where
  names := .ok []
  make _ _ := { outcome := .error default }

/-- Two plugins are asked for, and the second one can be loaded only if the machine is in its folder. -/
def twoPlugins : Startup where
  host := ⟨.folder [], [], "/", []⟩
  settings := { plugins := ["first", "second"] }
  loader host reference := if reference = "second" ∧ host.cwd = [] then .error default else .ok idle

/-- Two requests come, the first one fails, and the second one builds anew when the machine is in the folder. -/
def retried : List (Occurrence Startup) :=
  [.arrive, .arrive, .turn 0, .turn 1, .turn 0,
    .others { twoPlugins with host := ⟨.folder [], ["app"], "/", []⟩ },
    .turn 1, .arrive, .turn 2, .turn 1, .turn 1, .turn 2]

/-- The build of the first request fails, and that of the second one succeeds. -/
theorem shares_analyzer_retried :
    ∃ st, ({ state := twoPlugins } : Sharing Startup Analyzer).play spot build retried = st ∧
      SharesAnalyzer st ∧
      st.callers.map (fun c => c.work.result?.map Except.isOk) = [some false, some true, some true] :=
  ⟨_, rfl, shares_analyzer rfl retried rfl, by decide +kernel⟩

end Startup

end Polyscan
