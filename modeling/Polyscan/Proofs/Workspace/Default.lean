import Polyscan.Analyzer.Registry
import Polyscan.Proofs.Catalogue.Agreement
import Polyscan.Proofs.Conduct
import Polyscan.Proofs.KeyedCache
import Polyscan.Proofs.Workspace.Inputs

/-!
The workspace of the working directory. `allRules` and `select` without a workspace use the one of the
directory that is the working directory when the request begins. An analyzer keeps the last one, and no other
work, in turns of any order, changes it. So it is used again as long as these requests begin in the same
directory, and otherwise a new one is made.
-/
namespace Polyscan

namespace Analyzer

open Work KeyedCache

variable {a b : Analyzer} {w : Workspace} {paths : List String}

/-! ## Work that leaves it alone -/

/-- The law that the kept workspace stays the same, while others may be added. -/
def sparing : Law Analyzer where
  keeps a b := b.defaultWorkspace = a.defaultWorkspace ∧ a.workspaces ≤ b.workspaces
  refl _ := ⟨rfl, Nat.le_refl _⟩
  trans h h' := ⟨h'.1.trans h.1, Nat.le_trans h.2 h'.2⟩

theorem sparing_emit (e : Event LogLevel) (a : Analyzer) : sparing.keeps a (emit e a).2 := by
  rw [emit_eq]
  exact sparing.refl a

theorem allowsListing_sparing : AllowsListing sparing where
  emit := sparing_emit
  asked _ _ a := sparing.refl a

theorem allowsRun_sparing (o : RunOptions) : AllowsRun sparing o where
  emit := sparing_emit
  files _ a := sparing.refl a
  started _ _ a := sparing.refl a

theorem sparing_createWorkspace (paths : List String) (a : Analyzer) :
    sparing.keeps a (createWorkspace paths a).2 := by
  cases hinputs : Workspace.absoluteInputs a.host [] paths with
  | error f =>
    rw [createWorkspace_of_error hinputs]
    exact sparing.refl a
  | ok inputs =>
    rw [createWorkspace_of_ok hinputs]
    exact ⟨rfl, Nat.le_succ _⟩

theorem sparing_register (name : String) (config : EngineConfig) (engine : Engine) :
    sparing.Abides (Work.now (register name config engine)) :=
  .now_bind (.now sparing.refl) fun _ => .now_bind (.now (sparing_emit _)) fun _ => .now sparing.refl

theorem sparing_endAttempt (name : String) (config : EngineConfig) (made : Except Fault Engine) :
    sparing.Abides (Work.now (endAttempt name config made)) := by
  unfold endAttempt
  cases made with
  | error f => exact .now (sparing_emit _)
  | ok engine =>
    dsimp only
    cases engine.reportedName with
    | error f => exact .now sparing.refl
    | ok reported =>
      refine .now fun a => ?_
      dsimp only
      split
      · exact sparing_emit _ a
      · split
        · exact sparing_emit _ a
        · exact sparing_register name config engine a

theorem sparing_addEngine (p : Plugin) (name : String) : sparing.Abides (addEngine p name) := by
  have hbegin : sparing.Abides (Work.now (beginAttempt p name)) := by
    have hemitted : sparing.Abides (Work.now do
        say .error (.duplicateEngine name)
        pure (none : Option (EngineConfig × Delayed Engine))) := by
      refine .now_bind (.now (sparing_emit _)) fun _ => ?_
      exact .still fun _ => rfl
    refine .now fun a => ?_
    unfold beginAttempt
    split
    · exact hemitted a
    · exact sparing.refl a
  refine hbegin.bind fun x => ?_
  cases x with
  | none => exact .pure ()
  | some x =>
    exact (((Law.Abides.pause _).bind fun _ => .done _).attempt).bind fun made =>
      sparing_endAttempt name x.1 made

/-- `addPlugin` does not change the kept workspace. -/
theorem sparing_addPlugin (p : Plugin) : sparing.Abides (addPlugin p) := by
  have hopen : sparing.Abides (Work.now (openPlugin p)) := by
    unfold openPlugin
    cases p.names with
    | error f => exact .now sparing.refl
    | ok names =>
      dsimp only
      split
      · exact .now_bind (.now (sparing_emit _)) fun _ => .still fun _ => rfl
      · exact .still fun _ => rfl
  refine hopen.bind fun names => .get fun a => (Law.Abides.gather _ fun x hx => ?_).bind fun _ => .pure ()
  obtain ⟨name, -, rfl⟩ := List.mem_map.mp hx
  exact sparing_addEngine p name

theorem sparing_addModule (reference : String) : sparing.Abides (addModule reference) :=
  .get fun _ => (Law.Abides.done _).bind sparing_addPlugin

theorem sparing_expandedFiles (w : Workspace) : sparing.Abides (expandedFiles w) :=
  .obtain (fun _ a => sparing.refl a) ((Law.Abides.pause 1).bind fun _ => .still fun _ => rfl)

/-! ## The workspace that is kept -/

/-- The workspace that is kept for the working directory is used. -/
theorem workspaceHere_of_held (h : a.defaultWorkspace.held = some (a.host.cwdPath, w)) :
    workspaceHere a = (.ok w, a) := by
  rw [workspaceHere, KeyedCache.get_of_held h]

/-- If none is kept for the working directory, a new one is made, and kept unless that fails. -/
theorem workspaceHere_of_not_held (h : ∀ w, a.defaultWorkspace.held ≠ some (a.host.cwdPath, w)) :
    workspaceHere a =
      ((createWorkspace [a.host.cwdPath] a).1,
        { (createWorkspace [a.host.cwdPath] a).2 with
          defaultWorkspace := ⟨(Incident.called a.host.cwdPath (createWorkspace [a.host.cwdPath] a).1).leaves
            a.defaultWorkspace.held⟩ }) := by
  rw [workspaceHere, KeyedCache.get_of_not_held h]

/-- `createWorkspace` of one absolute path: the workspace is new, and its input is the normal form of the
path. -/
theorem workspace_of_path {p : String} (hp : Path.isAbsolute p = true)
    (hmade : (createWorkspace [p] a).1 = .ok w) :
    w.key = a.workspaces ∧ w.inputs = [Path.normalize p] ∧
      (createWorkspace [p] a).2.workspaces = a.workspaces + 1 := by
  obtain ⟨inputs, hinputs, rfl⟩ := createWorkspace_eq_ok_iff.mp hmade
  obtain ⟨-, rfl⟩ := Workspace.absoluteInputs_eq_ok_iff.mp hinputs
  rw [createWorkspace_of_ok hinputs]
  refine ⟨rfl, ?_, rfl⟩
  rw [List.map_singleton, a.host.absolute_of_isAbsolute hp]
  rfl

end Analyzer

/-! ## Requests -/

/-- Operations of an analyzer, apart from their results. -/
inductive AnalyzerCall where
  | rules (choice : Option Workspace)
  | select (selectors : List String) (choice : Option Workspace)
  | run (selection : Selection) (w : Workspace) (points : List String)
  | workspace (paths : List String)
  | files (w : Workspace)
  | plugin (p : Plugin)
  | load (reference : String)
  /-- An engine emits messages. -/
  | messages (engine : String) (said : List (Except Fault EngineMessage))

namespace AnalyzerCall

open Work Analyzer

def work : AnalyzerCall → Work Analyzer Unit
  | rules choice => (allRules choice).bind fun _ => pure ()
  | select selectors choice => (Analyzer.select selectors choice).bind fun _ => pure ()
  | run selection w points => (Analyzer.run selection w points).bind fun _ => pure ()
  | workspace paths => (Work.now (createWorkspace paths)).bind fun _ => pure ()
  | files w => (expandedFiles w).bind fun _ => pure ()
  | plugin p => addPlugin p
  | load reference => addModule reference
  | messages engine said => Work.now (forwardAll engine said)

/-- The operation is `allRules` or `select` without a workspace. -/
def isDefault : AnalyzerCall → Bool
  | rules none => true
  | select _ none => true
  | _ => false

/-- The same operation in a given workspace. -/
def within (w : Workspace) : AnalyzerCall → AnalyzerCall
  | rules none => rules (some w)
  | select selectors none => select selectors (some w)
  | e => e

variable {a b : Analyzer} {w : Workspace} {e : AnalyzerCall}

theorem isDefault_within (e : AnalyzerCall) (w : Workspace) : (e.within w).isDefault = false := by
  cases e with
  | rules choice => cases choice <;> rfl
  | select selectors choice => cases choice <;> rfl
  | _ => rfl

/-- An operation without a workspace begins with `workspaceHere`. -/
theorem work_of_isDefault (h : e.isDefault = true) :
    ∃ f : Workspace → Work Analyzer Unit, e.work = (Work.now workspaceHere).bind f ∧
      ∀ w, (e.within w).work = f w := by
  cases e with
  | rules choice =>
    cases choice with
    | none => exact ⟨_, bind_assoc _ _ _, fun w => rfl⟩
    | some w => cases h
  | select selectors choice =>
    cases choice with
    | none => exact ⟨_, (congrArg (Work.bind · _) (bind_assoc _ _ _)).trans (bind_assoc _ _ _), fun w => rfl⟩
    | some w => cases h
  | _ => cases h

theorem resume_of_ok (h : e.isDefault = true) (hhere : workspaceHere a = (.ok w, b)) :
    e.work.resume a = (e.within w).work.resume b := by
  obtain ⟨f, hwork, hwithin⟩ := work_of_isDefault h
  rw [hwork, resume_now_bind, hhere, hwithin]

theorem resume_of_error {f : Fault} (h : e.isDefault = true) (hhere : workspaceHere a = (.error f, b)) :
    e.work.resume a = (.done (.error f), b) := by
  obtain ⟨g, hwork, -⟩ := work_of_isDefault h
  rw [hwork, resume_now_bind, hhere]

/-- No other operation changes the kept workspace. -/
theorem abides (h : e.isDefault = false) : sparing.Abides e.work := by
  have hselect : ∀ selectors w, sparing.Abides (Analyzer.select selectors (some w)) :=
    fun selectors w => allowsListing_sparing.select (.pure w) selectors
  cases e with
  | rules choice =>
    cases choice with
    | none => cases h
    | some w => exact ((Law.Abides.pure w).bind allowsListing_sparing.rulesIn).bind fun _ => .pure ()
  | select selectors choice =>
    cases choice with
    | none => cases h
    | some w => exact (hselect selectors w).bind fun _ => .pure ()
  | run selection w points => exact (abides_run allowsRun_sparing selection w points).bind fun _ => .pure ()
  | workspace paths => exact (Law.Abides.now (sparing_createWorkspace paths)).bind fun _ => .pure ()
  | files w => exact (sparing_expandedFiles w).bind fun _ => .pure ()
  | plugin p => exact sparing_addPlugin p
  | load reference => exact sparing_addModule reference
  | messages engine said => exact (allowsRun_sparing default).toAllowsWork.forwardAll engine said

end AnalyzerCall

/-- An analyzer with the operations under way, and for every operation without a workspace the working
directory at its beginning and the outcome of `workspaceHere`. -/
structure AnalyzerSession where
  analyzer : Analyzer
  underWay : List (Work Analyzer Unit) := []
  uses : List (String × Except Fault Workspace) := []

namespace AnalyzerSession

open Work Analyzer

/-- A step: an operation begins, or one that waits has a turn, or the machine, its working directory or the
listeners change. -/
inductive Move where
  | ask (e : AnalyzerCall)
  | turn (i : Nat)
  | machine (h : Host)
  | listen (topics : List Topic) (refusal : Published LogLevel → Option Fault)
  | dismiss (topics : List Topic) (listener : Nat)

/-- A new analyzer without operations. -/
def opened (host : Host) (config : Config) (loader : Host → String → Except Fault Plugin) : AnalyzerSession where
  analyzer := { host, config, loader }

/-- An operation begins, and goes on to its first wait. -/
def ask (d : AnalyzerSession) (e : AnalyzerCall) : AnalyzerSession where
  analyzer := (e.work.resume d.analyzer).2
  underWay := d.underWay ++ [(e.work.resume d.analyzer).1]
  uses :=
    if e.isDefault then d.uses ++ [(d.analyzer.host.cwdPath, (workspaceHere d.analyzer).1)] else d.uses

def turn (d : AnalyzerSession) (i : Nat) : AnalyzerSession :=
  match d.underWay[i]? with
  | some x =>
    { d with analyzer := (x.turn d.analyzer).2, underWay := d.underWay.set i (x.turn d.analyzer).1 }
  | none => d

def step (d : AnalyzerSession) : Move → AnalyzerSession
  | .ask e => d.ask e
  | .turn i => d.turn i
  | .machine h => { d with analyzer := { d.analyzer with host := h } }
  | .listen topics refusal => { d with analyzer := (d.analyzer.listen topics refusal).2 }
  | .dismiss topics listener => { d with analyzer := d.analyzer.dismiss topics listener }

def play (d : AnalyzerSession) (moves : List Move) : AnalyzerSession := moves.foldl step d

/-- The last use that gave a workspace. -/
def lastUse (uses : List (String × Except Fault Workspace)) : Option (String × Workspace) :=
  uses.reverse.findSome? fun u => u.2.toOption.map fun w => (u.1, w)

theorem lastUse_append (uses : List (String × Except Fault Workspace)) (k : String)
    (r : Except Fault Workspace) :
    lastUse (uses ++ [(k, r)]) = (r.toOption.map fun w => (k, w)).or (lastUse uses) := by
  rw [lastUse, List.reverse_append, List.findSome?_append]
  cases r <;> simp [Except.toOption, lastUse]

theorem mem_of_lastUse {uses : List (String × Except Fault Workspace)} {k : String} {w : Workspace}
    (h : lastUse uses = some (k, w)) : (k, .ok w) ∈ uses := by
  obtain ⟨u, hu, hw⟩ := List.exists_of_findSome?_eq_some h
  obtain ⟨k', f | w'⟩ := u
  · cases hw
  · cases hw
    exact List.mem_reverse.mp hu

/-! ## Uses -/

/-- The kept workspace is that of the last use, and all workspaces that were used are older than the next one. -/
structure Keeps (a : Analyzer) (uses : List (String × Except Fault Workspace)) : Prop where
  held : a.defaultWorkspace.held = lastUse uses
  inputs : ∀ k w, lastUse uses = some (k, w) → w.inputs = [Path.normalize k]
  older : ∀ u ∈ uses, ∀ w, u.2 = .ok w → w.key < a.workspaces

namespace Keeps

variable {a b : Analyzer} {uses : List (String × Except Fault Workspace)} {k : String} {w : Workspace}

theorem of_sparing (h : Keeps a uses) (hab : sparing.keeps a b) : Keeps b uses where
  held := by rw [hab.1]; exact h.held
  inputs := h.inputs
  older u hu w hw := Nat.lt_of_lt_of_le (h.older u hu w hw) hab.2

variable (h : Keeps a uses)

include h

/-- In the directory of the last use, the same workspace is used and nothing changes. -/
theorem reused (hlast : lastUse uses = some (a.host.cwdPath, w)) : workspaceHere a = (.ok w, a) :=
  workspaceHere_of_held (h.held.trans hlast)

/-- In another directory a workspace is made, which is kept unless that fails. -/
theorem renewed (hother : ∀ w, lastUse uses ≠ some (a.host.cwdPath, w)) :
    (workspaceHere a).1 = (createWorkspace [a.host.cwdPath] a).1 := by
  rw [workspaceHere_of_not_held fun w hheld => hother w (h.held.symm.trans hheld)]

/-- The workspace that is made is newer than all that were used before. -/
theorem fresh (hother : ∀ w, lastUse uses ≠ some (a.host.cwdPath, w)) (hw : (workspaceHere a).1 = .ok w) :
    ∀ u ∈ uses, u.2 ≠ .ok w := by
  intro u hu hok
  rw [h.renewed hother] at hw
  have hkey := (workspace_of_path a.host.isAbsolute_cwdPath hw).1
  exact Nat.lt_irrefl _ (hkey ▸ h.older u hu w hok)

/-- A use that gives a workspace is the last one then. -/
theorem append {r : Except Fault Workspace} (hheld : b.defaultWorkspace.held = lastUse (uses ++ [(k, r)]))
    (hmore : a.workspaces ≤ b.workspaces)
    (hw : ∀ w, r = .ok w → w.inputs = [Path.normalize k] ∧ w.key < b.workspaces) :
    Keeps b (uses ++ [(k, r)]) where
  held := hheld
  inputs k' w hlast := by
    rw [lastUse_append] at hlast
    cases r with
    | error f => exact h.inputs k' w hlast
    | ok v =>
      cases hlast
      exact (hw w rfl).1
  older u hu w hok := by
    rcases List.mem_append.mp hu with hu | hu
    · exact Nat.lt_of_lt_of_le (h.older u hu w hok) hmore
    · cases List.mem_singleton.mp hu
      exact (hw w hok).2

theorem use : Keeps (workspaceHere a).2 (uses ++ [(a.host.cwdPath, (workspaceHere a).1)]) := by
  by_cases hlast : ∃ w, lastUse uses = some (a.host.cwdPath, w)
  · obtain ⟨w, hlast⟩ := hlast
    rw [h.reused hlast]
    refine h.append ?_ (Nat.le_refl _) fun v hv => ?_
    · rw [lastUse_append, h.held, hlast]
      rfl
    · cases hv
      exact ⟨h.inputs _ w hlast, h.older _ (mem_of_lastUse hlast) w rfl⟩
  · have hother := not_exists.mp hlast
    rw [workspaceHere_of_not_held fun w hheld => hother w (h.held.symm.trans hheld)]
    have hmore := (sparing_createWorkspace [a.host.cwdPath] a).2
    refine h.append ?_ hmore fun w hw => ?_
    · rw [lastUse_append, ← h.held]
      cases (createWorkspace [a.host.cwdPath] a).1 <;> rfl
    · obtain ⟨hkey, hinputs, hnext⟩ := workspace_of_path a.host.isAbsolute_cwdPath hw
      refine ⟨hinputs, ?_⟩
      rw [hkey]
      exact hnext ▸ Nat.lt_succ_self _

/-- An operation without a workspace is a use, and the rest of it does not change the kept workspace. -/
theorem resume {e : AnalyzerCall} (hdefault : e.isDefault = true) :
    Keeps (e.work.resume a).2 (uses ++ [(a.host.cwdPath, (workspaceHere a).1)]) ∧
      sparing.Abides (e.work.resume a).1 := by
  have huse := h.use
  rcases hhere : workspaceHere a with ⟨f | w, b⟩
  · rw [hhere] at huse
    rw [AnalyzerCall.resume_of_error hdefault hhere]
    exact ⟨huse, .done _⟩
  · rw [hhere] at huse
    rw [AnalyzerCall.resume_of_ok hdefault hhere]
    obtain ⟨hkeeps, hleft⟩ := (AnalyzerCall.abides (AnalyzerCall.isDefault_within e w) b).resume
    exact ⟨huse.of_sparing hkeeps, hleft⟩

end Keeps

/-! ## Every order of requests and turns -/

/-- The invariant: the analyzer keeps the workspace of the last use, and the rest of every operation leaves it
unchanged. -/
structure Sound (d : AnalyzerSession) : Prop where
  keeps : Keeps d.analyzer d.uses
  abiding : ∀ x ∈ d.underWay, sparing.Abides x

theorem sound_opened (host : Host) (config : Config) (loader : Host → String → Except Fault Plugin) :
    (opened host config loader).Sound where
  keeps := { held := rfl, inputs := fun _ _ => nofun, older := fun _ => nofun }
  abiding := fun _ => nofun

namespace Sound

variable {d : AnalyzerSession} (h : d.Sound)

include h

theorem ask (e : AnalyzerCall) : (d.ask e).Sound := by
  have hall : ∀ {x : Work Analyzer Unit}, sparing.Abides x → ∀ y ∈ d.underWay ++ [x], sparing.Abides y :=
    fun hx => List.forall_mem_append.mpr ⟨h.abiding, List.forall_mem_singleton.mpr hx⟩
  cases hdefault : e.isDefault with
  | false =>
    obtain ⟨hkeeps, hleft⟩ := (AnalyzerCall.abides hdefault d.analyzer).resume
    refine ⟨?_, hall hleft⟩
    simp only [AnalyzerSession.ask, hdefault, Bool.false_eq_true, if_false]
    exact h.keeps.of_sparing hkeeps
  | true =>
    obtain ⟨hkeeps, hleft⟩ := h.keeps.resume hdefault
    refine ⟨?_, hall hleft⟩
    simp only [AnalyzerSession.ask, hdefault, if_true]
    exact hkeeps

theorem turn (i : Nat) : (d.turn i).Sound := by
  unfold AnalyzerSession.turn
  cases hx : d.underWay[i]? with
  | none => exact h
  | some x =>
    obtain ⟨hkeeps, hleft⟩ := (h.abiding x (List.mem_of_getElem? hx)).turn d.analyzer
    refine ⟨h.keeps.of_sparing hkeeps, fun y hy => ?_⟩
    rcases List.mem_or_eq_of_mem_set hy with hy | rfl
    · exact h.abiding y hy
    · exact hleft

theorem step (m : Move) : (d.step m).Sound := by
  cases m with
  | ask e => exact h.ask e
  | turn i => exact h.turn i
  | machine host => exact ⟨h.keeps.of_sparing ⟨rfl, Nat.le_refl _⟩, h.abiding⟩
  | listen topics refusal => exact ⟨h.keeps.of_sparing ⟨rfl, Nat.le_refl _⟩, h.abiding⟩
  | dismiss topics listener => exact ⟨h.keeps.of_sparing ⟨rfl, Nat.le_refl _⟩, h.abiding⟩

theorem play (moves : List Move) : (d.play moves).Sound := by
  induction moves generalizing d with
  | nil => exact h
  | cons m rest ih => exact ih (h.step m)

end Sound

/-- The workspace of an operation that begins now without one. -/
structure FollowsDirectory (d : AnalyzerSession) : Prop where
  /-- It is determined at once, and the operation goes on as in this workspace. -/
  settles : ∀ (e : AnalyzerCall) w b, e.isDefault = true → workspaceHere d.analyzer = (.ok w, b) →
    e.work.resume d.analyzer = (e.within w).work.resume b
  refused : ∀ (e : AnalyzerCall) f b, e.isDefault = true → workspaceHere d.analyzer = (.error f, b) →
    e.work.resume d.analyzer = (.done (.error f), b)
  /-- It is a workspace of the present working directory. -/
  here : ∀ w, (workspaceHere d.analyzer).1 = .ok w →
    w.inputs = [Path.normalize d.analyzer.host.cwdPath]
  found : Workspace.IsThere d.analyzer.host d.analyzer.host.cwdPath →
    ∃ w, (workspaceHere d.analyzer).1 = .ok w
  /-- It is the one of the last use if and only if that was in the same directory. -/
  reused_iff : ∀ k w, lastUse d.uses = some (k, w) →
    ((workspaceHere d.analyzer).1 = .ok w ↔ k = d.analyzer.host.cwdPath)
  /-- Nothing changes in that case. -/
  unchanged : ∀ w, lastUse d.uses = some (d.analyzer.host.cwdPath, w) →
    (workspaceHere d.analyzer).2 = d.analyzer
  /-- Otherwise it is made now, and was never used before. -/
  renewed : (∀ w, lastUse d.uses ≠ some (d.analyzer.host.cwdPath, w)) →
    (workspaceHere d.analyzer).1 = (createWorkspace [d.analyzer.host.cwdPath] d.analyzer).1 ∧
      ∀ w, (workspaceHere d.analyzer).1 = .ok w → ∀ u ∈ d.uses, u.2 ≠ .ok w

theorem Keeps.followsDirectory {d : AnalyzerSession} (h : Keeps d.analyzer d.uses) : d.FollowsDirectory where
  settles _ _ _ := AnalyzerCall.resume_of_ok
  refused _ _ _ := AnalyzerCall.resume_of_error
  here w hw := by
    refine h.use.inputs _ w ?_
    rw [lastUse_append, hw]
    rfl
  found hthere := by
    by_cases hlast : ∃ w, lastUse d.uses = some (d.analyzer.host.cwdPath, w)
    · obtain ⟨w, hlast⟩ := hlast
      exact ⟨w, congrArg Prod.fst (h.reused hlast)⟩
    · rw [h.renewed (not_exists.mp hlast)]
      exact exists_createWorkspace (List.forall_mem_singleton.mpr hthere)
  reused_iff k w hlast := by
    constructor
    · intro hw
      by_contra hk
      have hother : ∀ v, lastUse d.uses ≠ some (d.analyzer.host.cwdPath, v) := by
        intro v hv
        rw [hlast] at hv
        exact hk (congrArg Prod.fst (Option.some.inj hv))
      exact h.fresh hother hw _ (mem_of_lastUse hlast) rfl
    · rintro rfl
      exact congrArg Prod.fst (h.reused hlast)
  unchanged w hlast := congrArg Prod.snd (h.reused hlast)
  renewed hother := ⟨h.renewed hother, fun _ hw => h.fresh hother hw⟩

/-- `KeyedCache` under every history of gets, clears and changes of the state serves its requests as `Serves`
says. So the workspace of `allRules` and `select` without one, under every sequence of operations, turns and
changes of the machine, is that of the present working directory: it is the one of the last such operation if
that began in the same directory, and a new one otherwise. -/
theorem follows_directory :
    (∀ {κ ν σ ε : Type} [DecidableEq κ] (make : κ → σ → Except ε ν × σ) (s : σ)
      (acts : List (KeyedCache.Act κ σ)),
      (KeyedCache.Usage.play make { state := s } acts).Serves make) ∧
    ∀ host config loader moves, ((opened host config loader).play moves).FollowsDirectory := by
  refine ⟨KeyedCache.Usage.serves_play, fun host config loader moves => ?_⟩
  exact ((sound_opened host config loader).play moves).keeps.followsDirectory

/-- A machine with two folders, of which one is the working directory. -/
def twoFolders (cwd : String) : Host where
  files := .folder [("a", .folder []), ("b", .folder [])]
  cwd := [cwd]
  home := "/"
  users := []

example :
    ((opened (twoFolders "a") {} Plugin.load).play
      [.ask (.rules none), .ask (.select ["all"] none), .machine (twoFolders "b"), .ask (.rules none),
        .machine (twoFolders "a"), .ask (.rules none)]).uses.map (fun u => (u.1, u.2.toOption.map Workspace.key)) =
      [("/a", some 0), ("/a", some 0), ("/b", some 1), ("/a", some 2)] := by
  decide +kernel

end AnalyzerSession

end Polyscan
