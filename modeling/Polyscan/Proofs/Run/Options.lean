import Polyscan.Proofs.Conduct
import Polyscan.Proofs.Delivery
import Polyscan.Proofs.Performance
import Polyscan.Proofs.Run.Outcome
import Polyscan.Proofs.StartPoint

/-!
The options of `run`. They are resolved before anything else happens, and every engine is started with exactly
these options, whatever the outcome of the run.
-/
namespace Polyscan.Analyzer

/-! ## What engines are handed -/

/-- Between `a` and `b` engines were started with these options and no others. -/
def Handed (o : RunOptions) (a b : Analyzer) : Prop :=
  ∀ engine, ∃ calls : List (List String × RunOptions), (∀ call ∈ calls, call.2 = o) ∧
    b.slots.get? engine = (a.slots.get? engine).map fun s => { s with runs := s.runs ++ calls }

namespace Handed

variable {o : RunOptions} {a b c : Analyzer}

theorem of_slots_eq (h : b.slots = a.slots) : Handed o a b := by
  intro engine
  refine ⟨[], by simp, ?_⟩
  rw [h]
  cases a.slots.get? engine <;> simp

theorem trans (h : Handed o a b) (h' : Handed o b c) : Handed o a c := by
  intro engine
  obtain ⟨calls, hcalls, hslot⟩ := h engine
  obtain ⟨more, hmore, hslot'⟩ := h' engine
  refine ⟨calls ++ more, ?_, ?_⟩
  · intro call hcall
    rcases List.mem_append.mp hcall with hcall | hcall
    · exact hcalls call hcall
    · exact hmore call hcall
  · rw [hslot', hslot, Option.map_map]
    congr 1
    funext s
    simp

theorem of_start (engine : String) (names : List String) :
    Handed o a (adjustSlot engine (fun s => { s with runs := s.runs ++ [(names, o)] }) a) := by
  intro k
  by_cases hk : engine = k
  · refine ⟨[(names, o)], by simp, ?_⟩
    show (a.slots.adjust engine _).get? k = _
    rw [OrderedMap.get?_adjust, if_pos hk]
  · refine ⟨[], by simp, ?_⟩
    show (a.slots.adjust engine _).get? k = _
    rw [OrderedMap.get?_adjust, if_neg hk]
    cases a.slots.get? k <;> simp

end Handed

/-- In every execution of the work, engines are started with these options and no others. -/
def HandsOver {α : Type} (o : RunOptions) (w : Work Analyzer α) : Prop := ∀ a, Handed o a (w.drive a).2

/-- The law that engines are started with these options and no others. -/
def handing (o : RunOptions) : Work.Law Analyzer where
  keeps := Handed o
  refl _ := .of_slots_eq rfl
  trans := Handed.trans

theorem allowsRun_handing (o : RunOptions) : AllowsRun (handing o) o where
  emit e a := .of_slots_eq (by rw [emit_eq])
  files _ _ := .of_slots_eq rfl
  started engine names _ := .of_start engine names

/-! ## Options come first -/

/-- A run after its options are resolved: they are logged, and the engines run with them. -/
def runWith (selection : Selection) (o : RunOptions) : Work Analyzer RunResults :=
  (Work.now (say .debug (.runOptions o.toJson))).bind fun _ =>
    runAll selection o selection.engineNames .empty

theorem handsOver_runWith (selection : Selection) (o : RunOptions) :
    HandsOver o (runWith selection o) := by
  have hopening : (handing o).Abides (Work.now (say .debug (.runOptions o.toJson))) :=
    .now ((allowsRun_handing o).emit _)
  exact (hopening.bind fun _ =>
    (allowsRun_handing o).runAll selection selection.engineNames .empty).drive

/-- `run` resolves its options first and ends at once if that fails. -/
theorem run_drive (selection : Selection) (w : Workspace) (points : List String) (a : Analyzer) :
    (run selection w points).drive a =
      match RunOptions.resolve a.host w points with
      | .error f => (.error f, a)
      | .ok o => (runWith selection o).drive a := by
  have hopening : (run selection w points).drive a =
      ((Work.now ((liftM (RunOptions.resolve a.host w points) : Effect Analyzer RunOptions) >>= fun o =>
        say .debug (.runOptions o.toJson) >>= fun _ => pure o)).bind fun o =>
          runAll selection o selection.engineNames .empty).drive a := rfl
  rw [hopening, Work.drive_bind, Work.drive_now]
  cases RunOptions.resolve a.host w points with
  | error f => rfl
  | ok o =>
    have hemitted : ((liftM (Except.ok o : Except Fault RunOptions) : Effect Analyzer RunOptions) >>= fun o =>
        say .debug (.runOptions o.toJson) >>= fun _ => pure o) a =
          (say .debug (.runOptions o.toJson) >>= fun _ => pure o) a := rfl
    rw [hemitted, Work.effect_bind]
    simp only [runWith, Work.drive_bind, Work.drive_now]
    rcases say .debug (.runOptions o.toJson) a with ⟨_ | _, b⟩ <;> rfl

/-- `run` is decided by `RunOptions.resolve`, and `Decided` says when that succeeds and with which options. If
it fails so does the run, and the analyzer is unchanged. Otherwise the run is `runWith` these options, and
engines are started with them and no others. -/
theorem run_admits (selection : Selection) {a : Analyzer} {w : Workspace} {points : List String}
    (hinputs : ∀ i ∈ w.inputs, Path.Plain i)
    (hfiles : ∀ point ∈ points, ∀ ps, StartPoint.parse a.host point = .ok ps →
      ∀ p ∈ ps, Path.rootSlashes p.file = "/") :
    ∃ outcome, RunOptions.Decided a.host w points outcome ∧
      (∀ f, outcome = .error f → (run selection w points).drive a = (.error f, a)) ∧
      ∀ o, outcome = .ok o →
        (run selection w points).drive a = (runWith selection o).drive a ∧
          Handed o a ((run selection w points).drive a).2 := by
  refine ⟨RunOptions.resolve a.host w points, RunOptions.decided_resolve hinputs hfiles, ?_, ?_⟩
  · intro f hf
    rw [run_drive, hf]
  · intro o ho
    have hrun : (run selection w points).drive a = (runWith selection o).drive a := by
      rw [run_drive, ho]
    rw [hrun]
    exact ⟨rfl, handsOver_runWith selection o a⟩

/-- Two methods of the one file, and the whole file. -/
def onePoints : List String := ["/main.py#first;second", "/main.py"]

/-- Start points for two methods and the whole file, as they reach the engines. -/
theorem run_admits_onePoints :
    ∃ o, (run (.ofList toolboxRules) oneFileWorkspace onePoints).drive (equipped "/main.py") =
        (runWith (.ofList toolboxRules) o).drive (equipped "/main.py") ∧
      o.startPoints = some [⟨"/main.py", some "first"⟩, ⟨"/main.py", some "second"⟩, ⟨"/main.py", none⟩] := by
  have hinputs : ∀ i ∈ oneFileWorkspace.inputs, Path.Plain i := by
    intro i hi
    rw [List.mem_singleton.mp hi]
    exact ⟨by decide, by decide⟩
  have hmethods : StartPoint.parse (equipped "/main.py").host "/main.py#first;second" =
      .ok [⟨"/main.py", some "first"⟩, ⟨"/main.py", some "second"⟩] := rfl
  have hwhole : StartPoint.parse (equipped "/main.py").host "/main.py" = .ok [⟨"/main.py", none⟩] := rfl
  have hfiles : ∀ point ∈ onePoints, ∀ ps, StartPoint.parse (equipped "/main.py").host point = .ok ps →
      ∀ p ∈ ps, Path.rootSlashes p.file = "/" := by
    intro point hpoint ps hps
    have hcases : point = "/main.py#first;second" ∨ point = "/main.py" := by
      simpa [onePoints] using hpoint
    rcases hcases with rfl | rfl
    · rw [hmethods] at hps
      cases hps
      decide
    · rw [hwhole] at hps
      cases hps
      decide
  obtain ⟨outcome, hdecided, -, hok⟩ := run_admits (.ofList toolboxRules) hinputs hfiles
  have hadmitted : RunOptions.Admitted (equipped "/main.py").host oneFileWorkspace onePoints := by
    refine ⟨by decide, _, .cons hmethods (.cons hwhole .nil), ?_⟩
    simp [StartPoint.Inside, oneFileWorkspace]
  obtain ⟨o, ho⟩ := hdecided.passes.mpr hadmitted
  refine ⟨o, (hok o ho).1, ?_⟩
  obtain ⟨-, -, hpoints⟩ := hdecided.options o ho
  obtain ⟨pss, hpss, hstart⟩ := hpoints (by decide)
  cases hpss with
  | cons hfirst hrest =>
    cases hrest with
    | cons hsecond hnone =>
      cases hnone
      cases Except.ok.inj (hfirst.symm.trans hmethods)
      cases Except.ok.inj (hsecond.symm.trans hwhole)
      exact hstart

/-- The start point `~a` with a zero byte fails by `expandHome`, and not as invalid input. -/
theorem run_refuses_unaskable :
    (∀ i ∈ oneFileWorkspace.inputs, Path.Plain i) ∧
      ((run (.ofList toolboxRules) oneFileWorkspace ["~a\x00b"]).drive (equipped "/main.py")).1 =
        .error Host.nullByte ∧
      Host.nullByte.kind ≠ .invalidInput := by
  refine ⟨?_, rfl, by decide⟩
  intro i hi
  rw [List.mem_singleton.mp hi]
  exact ⟨by decide, by decide⟩

end Polyscan.Analyzer
