import Polyscan.Analyzer.Run
import Polyscan.Proofs.Abiding
import Polyscan.Proofs.Catalogue.Description

/-!
The effects of listing and running rules: events are emitted, what engines were asked and how they were
started is recorded in their slots, and expansions of workspaces are stored. A law that allows for each of
these effects is kept by every turn of listing and of running, whatever other tasks do in between.
-/
namespace Polyscan.Analyzer

open Work

/-- The law allows for what is done when rules are listed. -/
structure AllowsListing (l : Law Analyzer) : Prop where
  emit : ∀ e a, l.keeps a (emit e a).2
  asked : ∀ engine id a,
    l.keeps a (adjustSlot engine (fun s => { s with describes := s.describes ++ [id] }) a)

/-- The law allows for what is done while engines run with the given options, once they are started. -/
structure AllowsWork (l : Law Analyzer) (o : RunOptions) : Prop where
  emit : ∀ e a, l.keeps a (emit e a).2
  files : ∀ x a, l.keeps a ((expansion o.workspace.key).store x a)

/-- The law allows for what is done when engines are started with the given options and run. -/
structure AllowsRun (l : Law Analyzer) (o : RunOptions) : Prop extends AllowsWork l o where
  started : ∀ engine names a,
    l.keeps a (adjustSlot engine (fun s => { s with runs := s.runs ++ [(names, o)] }) a)

variable {l : Law Analyzer} {α : Type}

theorem abides_slot (engine : String) : l.Abides (Work.now (slot engine)) :=
  .still fun a => by
    unfold slot
    cases a.slots.get? engine <;> rfl

theorem abides_lift (r : Except Fault α) : l.Abides (Work.now (liftM r : Effect Analyzer α)) :=
  .still fun a => by cases r <;> rfl

theorem abides_read : l.Abides (Work.now (MonadState.get : Effect Analyzer Analyzer)) := .still fun _ => rfl

/-! ## Listing -/

namespace AllowsListing

variable (h : AllowsListing l)

include h

theorem emitAll (es : List (Event LogLevel)) : l.Abides (Work.now (Analyzer.emitAll es)) := by
  induction es with
  | nil => exact .still fun _ => rfl
  | cons e rest ih => exact .now_bind (.now (h.emit e)) fun _ => ih

theorem acceptDescribed (engine : String) (x : Described) :
    l.Abides (Work.now (Analyzer.acceptDescribed engine x)) := by
  refine .now fun a => ?_
  rw [acceptDescribed_eq]
  split
  · exact l.refl a
  · split
    · exact l.refl a
    · rw [rulesOf_eq]
      exact (Law.Abides.now_bind (h.emitAll _) fun _ => .still fun _ => rfl) a

theorem describeEngine (w : Workspace) (engine : String) : l.Abides (Analyzer.describeEngine w engine) := by
  have hasked : l.Abides (askForDescriptions w engine) := by
    refine (abides_slot engine).bind fun s => ?_
    cases s.engine with
    | patterns rules => exact .pure _
    | external e =>
      have hnote : l.Abides (Work.now do
          modify (adjustSlot engine fun slot => { slot with describes := slot.describes ++ [w.id] })) :=
        .now (h.asked engine w.id)
      have hanswer : l.Abides ((e.describe w).await : Work Analyzer Json) :=
        (Law.Abides.pause _).bind fun _ => .done _
      exact hnote.bind fun _ => hanswer.bind fun v => .pure _
  exact hasked.bind fun x => h.acceptDescribed engine x

/-- A law that allows for listing is kept by `rulesIn`, in whatever rounds engines describe their rules. -/
theorem rulesIn (w : Workspace) : l.Abides (Analyzer.rulesIn w) := by
  refine .get fun a => (Law.Abides.gather _ fun x hx => ?_).bind fun _ => .pure _
  obtain ⟨engine, -, rfl⟩ := List.mem_map.mp hx
  exact h.describeEngine w engine

theorem select {choice : Option Workspace} (hchoice : l.Abides (workspaceOr choice))
    (selectors : List String) : l.Abides (Analyzer.select selectors choice) :=
  (hchoice.bind fun w => h.rulesIn w).bind fun _ => .pure _

end AllowsListing

/-! ## Running -/

namespace AllowsWork

variable {o : RunOptions} (h : AllowsWork l o)

include h

theorem emitTimes (e : Event LogLevel) (n : Nat) : l.Abides (Work.now (Analyzer.emitTimes e n)) := by
  induction n with
  | zero => exact .still fun _ => rfl
  | succ n ih => exact .now_bind (.now (h.emit e)) fun _ => ih

theorem forward (engine : String) (m : EngineMessage) :
    l.Abides (Work.now (Analyzer.forward engine m)) :=
  .now_bind (abides_slot engine) fun _ => h.emitTimes _ _

theorem forwardAll (engine : String) (messages : List (Except Fault EngineMessage)) :
    l.Abides (Work.now (Analyzer.forwardAll engine messages)) := by
  induction messages with
  | nil => exact .still fun _ => rfl
  | cons m rest ih =>
    cases m with
    | error f => exact .still fun _ => rfl
    | ok m => exact .now_bind (h.forward engine m) fun _ => ih

theorem expandedFiles : l.Abides (Analyzer.expandedFiles o.workspace) :=
  .obtain h.files ((Law.Abides.pause 1).bind fun _ => .still fun _ => rfl)

theorem scanFiles (engine : String) (rules : List PatternRule) (total done : Nat) (files : List String) :
    l.Abides (Analyzer.scanFiles engine rules total done files) := by
  induction files generalizing done with
  | nil => exact .pure []
  | cons file rest ih =>
    refine (Law.Abides.pause 1).bind fun _ => ?_
    have hstep : l.Abides (Work.now do
        let found ← PatternRule.scanFile (← get).host rules file
        Analyzer.forward engine (.progress (.share (done + 1) total))
        pure found) :=
      .now_bind abides_read fun a => .now_bind (abides_lift _) fun _ =>
        .now_bind (h.forward engine _) fun _ => .still fun _ => rfl
    exact hstep.bind fun _ => (ih (done + 1)).bind fun _ => .pure _

theorem runPatterns (engine : String) (rules : List PatternRule) (names : List String) :
    l.Abides (Analyzer.runPatterns engine rules names o) := by
  unfold Analyzer.runPatterns
  cases rulesNamed rules names with
  | error missing => exact .throw _
  | ok chosen =>
    exact h.expandedFiles.bind fun files =>
      (h.forward engine _).bind fun _ => h.scanFiles engine chosen _ 0 _

/-- The run of an external engine once it is started. -/
theorem conduct (engine : String) (c : Conduct) :
    l.Abides ((Work.pause c.rounds).bind fun _ => Work.now do
      Analyzer.forwardAll engine c.messages
      c.report) :=
  (Law.Abides.pause _).bind fun _ => .now_bind (h.forwardAll engine _) fun _ => abides_lift _

end AllowsWork

namespace AllowsRun

variable {o : RunOptions} (h : AllowsRun l o)

include h

theorem runExternal (engine : String) (e : ExternalEngine) (names : List String) :
    l.Abides (Analyzer.runExternal engine e names o) := by
  have hnote : l.Abides (Work.now do
      modify (adjustSlot engine fun slot => { slot with runs := slot.runs ++ [(names, o)] })) :=
    .now (h.started engine names)
  exact hnote.bind fun _ => h.toAllowsWork.conduct engine _

theorem runEngine (engine : String) (s : Slot) (names : List String) :
    l.Abides (Analyzer.runEngine engine s names o) := by
  unfold Analyzer.runEngine
  cases s.engine with
  | patterns rules => exact (h.toAllowsWork.runPatterns engine rules names).map _
  | external e => exact h.runExternal engine e names

theorem resultsOf (selection : Selection) (engine : String) :
    l.Abides (Analyzer.resultsOf selection o engine) := by
  refine (Law.Abides.now_bind (.now (h.emit _)) fun _ => abides_slot engine).bind fun s => ?_
  refine (h.runEngine engine s _).attempt.bind fun r => ?_
  cases r with
  | error f => exact .now_bind (.now (h.emit _)) fun _ => .still fun _ => rfl
  | ok r => exact .now_bind abides_read fun a => abides_lift _

/-- A law that allows for runs is kept by `runAll`, whatever the outcome of each engine. -/
theorem runAll (selection : Selection) (engines : List String) (results : RunResults) :
    l.Abides (Analyzer.runAll selection o engines results) := by
  induction engines generalizing results with
  | nil => exact .pure results
  | cons engine rest ih =>
    have hopening : l.Abides (Work.now (Analyzer.emit (.progress engine (.given (.ofNat 0))))) :=
      .now (h.emit _)
    refine hopening.bind fun _ => (h.resultsOf selection engine).bind fun r => ?_
    exact (Law.Abides.now_bind (.now (h.emit _)) fun _ => .now (h.emit _)).bind fun _ => ih (results.add r)

end AllowsRun

theorem abides_run (h : ∀ o, AllowsRun l o) (selection : Selection) (w : Workspace) (points : List String) :
    l.Abides (run selection w points) := by
  refine Law.Abides.bind (α := RunOptions) ?_ fun o => (h o).runAll selection _ _
  exact .now_bind abides_read fun a => .now_bind (abides_lift _) fun o =>
    .now_bind (.now ((h o).emit _)) fun _ => .still fun _ => rfl

end Polyscan.Analyzer
