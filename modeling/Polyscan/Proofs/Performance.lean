import Polyscan.Analyzer.Run
import Polyscan.Proofs.Enactment

/-!
The performance of an engine in a run, apart from the analyzer: its messages, and its report.
`runEngine_enacts` says that `runEngine` comes to the performance of the engine, up to the first message on
which a listener raises, and that a message is emitted once for each forwarding subscription of its kind.
-/
namespace Polyscan

/-- The messages of an engine in a run, and the report that it returns or the fault that it raises. -/
structure Performance (α : Type) where
  messages : List EngineMessage
  report : Except Fault α

namespace Performance

variable {α β : Type}

/-- The performance that begins with one more message. -/
def after (m : EngineMessage) (p : Performance α) : Performance α := ⟨m :: p.messages, p.report⟩

def map (f : α → β) (p : Performance α) : Performance β := ⟨p.messages, p.report.map f⟩

/-- The messages up to the first item that is a fault; if there is none, the report. -/
def ofConduct (report : Except Fault α) : List (Except Fault EngineMessage) → Performance α
  | [] => ⟨[], report⟩
  | .error f :: _ => ⟨[], .error f⟩
  | .ok m :: rest => (ofConduct report rest).after m

/-- Scans files one after another. -/
def ofScan (h : Host) (rules : List PatternRule) (total : Nat) :
    Nat → List String → Performance (List (Finding Int))
  | _, [] => ⟨[], .ok []⟩
  | done, file :: rest =>
    match PatternRule.scanFile h rules file with
    | .error f => ⟨[], .error f⟩
    | .ok found =>
      ((ofScan h rules total (done + 1) rest).map (found ++ ·)).after (.progress (.share (done + 1) total))

end Performance

/-- What an engine does when it is asked to run rules in a workspace of the given files. -/
def Engine.perform (h : Host) (files : List String) (names : List String) (o : RunOptions) :
    Engine → Performance Reported
  | .external e => Performance.ofConduct (e.run names o).report (e.run names o).messages
  | .patterns rules =>
    match Analyzer.rulesNamed rules names with
    | .error missing => ⟨[], .error (Analyzer.unknownRules missing)⟩
    | .ok chosen =>
      let scope := Analyzer.filesInScope o files
      ((Performance.ofScan h chosen scope.length 0 scope).map .findings).after
        (Analyzer.scanNotice scope.length names)

/-- The number of subscriptions that forward a message. -/
def Slot.forwards (s : Slot) : EngineMessage → Nat
  | .log .. => s.logForwards
  | .progress _ => s.progressForwards

/-- The events that the messages of an engine are forwarded as. -/
def Slot.forwarded (s : Slot) (engine : String) (messages : List EngineMessage) :
    List (Event LogLevel) :=
  messages.flatMap fun m => List.replicate (s.forwards m) (m.toEvent engine)

theorem Slot.forwarded_cons (s : Slot) (engine : String) (m : EngineMessage)
    (rest : List EngineMessage) :
    s.forwarded engine (m :: rest) =
      List.replicate (s.forwards m) (m.toEvent engine) ++ s.forwarded engine rest := by
  simp [forwarded]

namespace Analyzer

variable {α β : Type} {o : RunOptions} {a b : Analyzer} {engine : String} {s : Slot}

/-! ## Passing messages on -/

namespace Enacts

theorem then_pure {w : Work Analyzer α} {r : Except Fault α} {cues : List Cue} (g : α → β)
    (hw : Enacts o w a r cues) : Enacts o (w.bind fun x => Pure.pure (g x)) a (r.map g) cues :=
  hw.map g

theorem slot (hs : a.slots.get? engine = some s) :
    Enacts o (Work.now (Analyzer.slot engine)) a (.ok s) [] :=
  still (by simp [Analyzer.slot, hs])

theorem emitTimes (e : Event LogLevel) (n : Nat) :
    Enacts o (Work.now (Analyzer.emitTimes e n)) a (.ok ())
      ((stamped a.clock (List.replicate n e)).map .emits) := by
  induction n generalizing a with
  | zero => exact still rfl
  | succ n ih =>
    have hfirst : Enacts o (Work.now (emit e)) a (.ok ()) ((stamped a.clock [e]).map .emits) := say e
    exact now_bind (hfirst.bind_emits fun b hb => ih)

theorem forward (m : EngineMessage) (hs : a.slots.get? engine = some s) :
    Enacts o (Work.now (Analyzer.forward engine m)) a (.ok ())
      ((stamped a.clock (List.replicate (s.forwards m) (m.toEvent engine))).map .emits) := by
  refine now_bind ((slot hs).quiet_bind fun b hb => ?_)
  have htimes := emitTimes (o := o) (a := b) (m.toEvent engine) (s.forwards m)
  rw [hb.clock] at htimes
  cases m <;> exact htimes

theorem forwardAll (messages : List (Except Fault EngineMessage)) (report : Except Fault α)
    (hs : a.slots.get? engine = some s) :
    Enacts o (Work.now do
        Analyzer.forwardAll engine messages
        report) a (Performance.ofConduct report messages).report
      ((stamped a.clock (s.forwarded engine (Performance.ofConduct report messages).messages)).map
        .emits) := by
  induction messages generalizing a with
  | nil => exact still (by cases report <;> rfl)
  | cons x rest ih =>
    cases x with
    | error f => exact still rfl
    | ok m =>
      simp only [Performance.ofConduct, Performance.after, Slot.forwarded_cons, Analyzer.forwardAll, bind_assoc]
      exact now_bind ((forward m hs).bind_emits fun b hb => ih (hb.slot_same (Cue.launches_emits _) hs))

end Enacts

/-! ## Engines -/

/-- Storing an expansion changes nothing if the files of the workspace are the same. -/
theorem Passage.of_expansion (x : Once (List String))
    (hx : x.value.getD (Workspace.expand a.host o.workspace.inputs) = a.filesOf o.workspace) :
    Passage o [] a ((expansion o.workspace.key).store x a) where
  rest := rfl
  clock := rfl
  stamps := rfl
  heard := (Passage.refl o a).heard
  names := rfl
  slots := (Passage.refl o a).slots
  files := by
    simp only [filesOf, expansion, OrderedMap.find_put, if_true, Option.getD_some]
    exact hx

/-- The expansion is stored already, or other work computes it. -/
theorem orFrom_enacts {other : Work Analyzer (List String)}
    (h : ((expansion o.workspace.key).look a).value = none →
      Enacts o other a (.ok (a.filesOf o.workspace)) []) :
    Enacts o (Once.orFrom (expansion o.workspace.key) other) a (.ok (a.filesOf o.workspace)) [] := by
  cases hv : ((expansion o.workspace.key).look a).value with
  | some files => exact ⟨a, by simp [Once.orFrom, Work.drive, hv, filesOf, reply, stop], .refl o a⟩
  | none =>
    obtain ⟨b, hdrive, hb⟩ := h hv
    exact ⟨b, by simp only [Once.orFrom, Work.drive, hv, hdrive], hb⟩

theorem fill_enacts (hv : ((expansion o.workspace.key).look a).value = none) :
    Enacts o (Once.fill (expansion o.workspace.key) (listFiles o.workspace)) a
      (.ok (a.filesOf o.workspace)) [] := by
  have hfiles : Workspace.expand a.host o.workspace.inputs = a.filesOf o.workspace := by
    simp [filesOf, hv]
  exact ⟨_, congrArg (fun files => (Except.ok files, (expansion o.workspace.key).keep files a)) hfiles,
    .of_expansion _ rfl⟩

theorem expandedFiles_enacts :
    Enacts o (expandedFiles o.workspace) a (.ok (a.filesOf o.workspace)) [] := by
  refine orFrom_enacts fun _ => ?_
  -- the lock is taken, the files are looked for once more, and the lock is given back
  have hlock : Passage o [] a ((expansion o.workspace.key).lock a) := .of_expansion _ rfl
  obtain ⟨b, hdrive, hb⟩ := orFrom_enacts (o := o) (a := (expansion o.workspace.key).lock a) fill_enacts
  have hunlock : Passage o [] b ((expansion o.workspace.key).unlock b) := .of_expansion _ rfl
  refine ⟨(expansion o.workspace.key).unlock b, ?_, (hlock.trans hb).trans hunlock⟩
  change (Work.bind _ _).drive a = _
  rw [Work.drive_bind, Work.drive_acquire]
  simp only [Work.drive_ensuring, hdrive, hlock.files]
  rfl

/-- Scans one file and emits the progress. -/
def scanStep (engine : String) (rules : List PatternRule) (file : String) (percent : Percent) :
    Effect Analyzer (List (Finding Int)) := do
  let found ← PatternRule.scanFile (← get).host rules file
  forward engine (.progress percent)
  pure found

theorem scanStep_fails {rules : List PatternRule} {file : String} {percent : Percent} {f : Fault}
    (hscan : PatternRule.scanFile a.host rules file = .error f) :
    Enacts o (Work.now (scanStep engine rules file percent)) a (.error f) [] := by
  refine .now_get ?_
  rw [hscan]
  exact .still rfl

theorem scanStep_enacts {rules : List PatternRule} {file : String} (percent : Percent)
    {found : List (Finding Int)} (hscan : PatternRule.scanFile a.host rules file = .ok found)
    (hs : a.slots.get? engine = some s) :
    Enacts o (Work.now (scanStep engine rules file percent)) a (.ok found)
      ((stamped a.clock (List.replicate s.progressForwards (.progress engine percent))).map .emits) := by
  refine .now_get ?_
  rw [hscan]
  refine .now_lift (.now_bind ?_)
  exact (Enacts.forward (.progress percent) hs).bind_quiet fun b hb => .still rfl

theorem scanFiles_enacts (rules : List PatternRule) (total done : Nat) (files : List String)
    (hs : a.slots.get? engine = some s) :
    Enacts o (scanFiles engine rules total done files) a
      (Performance.ofScan a.host rules total done files).report
      ((stamped a.clock
        (s.forwarded engine (Performance.ofScan a.host rules total done files).messages)).map .emits) := by
  induction files generalizing a done with
  | nil => exact .pure []
  | cons file rest ih =>
    unfold scanFiles
    refine (Enacts.pause 1).quiet_bind fun b hb => ?_
    change Enacts o ((Work.now (scanStep engine rules file (.share (done + 1) total))).bind _) b _ _
    unfold Performance.ofScan
    cases hscan : PatternRule.scanFile a.host rules file with
    | error f => exact Enacts.bind_error (scanStep_fails (by rw [hb.host, hscan]))
    | ok found =>
      simp only [Performance.after, Performance.map, Slot.forwarded_cons]
      have hs' := hb.slot_same rfl hs
      rw [show a.clock = b.clock from hb.clock.symm]
      refine (scanStep_enacts _ (by rw [hb.host, hscan]) hs').bind_emits fun c hc => ?_
      have hmore := ih (done + 1) (hc.slot_same (Cue.launches_emits _) hs')
      rw [hc.host, hb.host] at hmore
      exact hmore.then_pure (found ++ ·)

/-- With names of existing rules `runPatterns` emits the number of files in scope and scans them. -/
theorem runPatterns_enacts_of_known {rules chosen : List PatternRule} {names : List String}
    (hchosen : rulesNamed rules names = .ok chosen) (hs : a.slots.get? engine = some s) :
    Enacts o (runPatterns engine rules names o) a
      (Performance.ofScan a.host chosen (filesInScope o (a.filesOf o.workspace)).length 0
        (filesInScope o (a.filesOf o.workspace))).report
      ((stamped a.clock
        (s.forwarded engine (scanNotice (filesInScope o (a.filesOf o.workspace)).length names ::
          (Performance.ofScan a.host chosen (filesInScope o (a.filesOf o.workspace)).length 0
            (filesInScope o (a.filesOf o.workspace))).messages))).map .emits) := by
  unfold runPatterns
  simp only [hchosen, Slot.forwarded_cons]
  refine expandedFiles_enacts.quiet_bind fun b hb => ?_
  have hs' := hb.slot_same rfl hs
  rw [show a.clock = b.clock from hb.clock.symm]
  refine (Enacts.forward _ hs').bind_emits fun c hc => ?_
  have hscan := scanFiles_enacts (o := o) chosen
    (filesInScope o (a.filesOf o.workspace)).length 0 (filesInScope o (a.filesOf o.workspace))
    (hc.slot_same (Cue.launches_emits _) hs')
  rwa [hc.host, hb.host] at hscan

/-- The performance of the bundled engine. No record of its start is kept. -/
theorem runPatterns_enacts (rules : List PatternRule) (names : List String)
    (hs : a.slots.get? engine = some s) :
    Enacts o (Reported.findings <$> runPatterns engine rules names o) a
      ((Engine.patterns rules).perform a.host (a.filesOf o.workspace) names o).report
      ((stamped a.clock (s.forwarded engine
        ((Engine.patterns rules).perform a.host (a.filesOf o.workspace) names o).messages)).map
          .emits) := by
  simp only [Engine.perform]
  cases hchosen : rulesNamed rules names with
  | error missing =>
    unfold runPatterns
    rw [hchosen]
    exact ⟨a, rfl, .refl o a⟩
  | ok chosen => exact Enacts.map Reported.findings (runPatterns_enacts_of_known hchosen hs)

/-- The start of an external engine is recorded in its slot. -/
theorem Passage.of_start {e : ExternalEngine} (names : List String)
    (hs : a.slots.get? engine = some s) (he : s.engine = .external e) :
    Passage o [.starts engine names] a
      (adjustSlot engine (fun slot => { slot with runs := slot.runs ++ [(names, o)] }) a) where
  rest := rfl
  clock := rfl
  stamps := rfl
  heard := (Passage.refl o a).heard
  names := OrderedMap.keys_adjust ..
  slots k := by
    have hlaunches : Cue.launches [.starts engine names] = [(engine, names)] := rfl
    simp only [adjustSlot, OrderedMap.get?_adjust, hlaunches, Starts.callsOf, List.filter_cons, List.filter_nil]
    by_cases hk : engine = k
    · subst hk
      simp [hs, Slot.asked, he]
    · have hnone := (Passage.refl o a).slots k
      simpa [hk, Starts.callsOf, Cue.launches] using hnone
  files := rfl

theorem runExternal_enacts {e : ExternalEngine} (names : List String)
    (hs : a.slots.get? engine = some s) (he : s.engine = .external e) :
    Enacts o (runExternal engine e names o) a
      (Performance.ofConduct (e.run names o).report (e.run names o).messages).report
      (.starts engine names :: (stamped a.clock (s.forwarded engine
        (Performance.ofConduct (e.run names o).report (e.run names o).messages).messages)).map .emits) := by
  have hnote : Enacts o (Work.now do
      modify (adjustSlot engine fun slot => { slot with runs := slot.runs ++ [(names, o)] })) a (.ok ())
      [.starts engine names] := .of_passage rfl (.of_start names hs he) rfl
  refine hnote.bind fun b hb => ?_
  refine (Enacts.pause _).quiet_bind fun c hc => ?_
  have hforwarded : ∀ messages,
      (s.asked (Starts.callsOf (Cue.launches [.starts engine names]) o engine)).forwarded engine messages =
        s.forwarded engine messages := by
    intro messages
    unfold Slot.forwarded Slot.forwards
    simp
  have hall := Enacts.forwardAll (o := o) (e.run names o).messages (e.run names o).report
    (hc.slot_same rfl (hb.slot_of hs))
  rwa [hforwarded, hc.clock, hb.clock] at hall

/-- The bundled engine has no record of its starts, so its start may be listed. -/
theorem Passage.listed {cues : List Cue} {rules : List PatternRule} (names : List String)
    (h : Passage o cues a b) (hnone : Cue.launches cues = []) (hs : a.slots.get? engine = some s)
    (hr : s.engine = .patterns rules) : Passage o (.starts engine names :: cues) a b :=
  { h with
    slots := fun k => by
      have hlaunches : Cue.launches (.starts engine names :: cues) = [(engine, names)] :=
        congrArg ((engine, names) :: ·) hnone
      rw [h.slots, hlaunches, hnone]
      by_cases hk : engine = k
      · subst hk
        simp [hs, Slot.asked, hr]
      · simp [Starts.callsOf, hk] }

/-- `runEngine` emits the messages of the engine's performance, once for each forwarding subscription, and
comes to its report. -/
theorem runEngine_enacts (names : List String) (hs : a.slots.get? engine = some s) :
    Enacts o (runEngine engine s names o) a
      (s.engine.perform a.host (a.filesOf o.workspace) names o).report
      (.starts engine names :: (stamped a.clock
        (s.forwarded engine (s.engine.perform a.host (a.filesOf o.workspace) names o).messages)).map
          .emits) := by
  unfold runEngine
  cases he : s.engine with
  | patterns rules =>
    obtain ⟨b, hdrive, hb⟩ := runPatterns_enacts (o := o) rules names hs
    refine ⟨b, hdrive, ?_⟩
    rw [played_emits] at hb
    rw [← List.singleton_append, played_append_of_none rfl, played_emits]
    exact hb.listed names (Cue.launches_emits _) hs he
  | external e => exact runExternal_enacts names hs he

end Analyzer

end Polyscan
