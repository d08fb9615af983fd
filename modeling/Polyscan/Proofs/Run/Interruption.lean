import Polyscan.Proofs.Run.Outcome

/-!
Listeners that raise during `run`. A fault raised on an event of the analyzer itself ends the run with that
fault. A fault raised on a forwarded message ends the run of that engine: it is kept as the engine's results,
and the run goes on with the later engines.
-/
namespace Polyscan.Analyzer

variable {a : Analyzer} {selection : Selection} {o : RunOptions} {x : TimedEngine} {xs : List TimedEngine}

/-! ## How far a run comes -/

/-- The engine is registered, and it raises or its report is acceptable. -/
def Finishes (a : Analyzer) (selection : Selection) (o : RunOptions) (engine : String) : Prop :=
  engine ∈ a.engineNames ∧ a.Accepts selection o engine

theorem settled_eq_ok_iff (hquiet : a.Unrefused selection o x) {e : EngineResults} :
    a.settled selection o x = .ok e ↔ x.engine ∈ a.engineNames ∧ a.Keeps selection o x.engine e := by
  cases hs : a.slots.get? x.engine with
  | none =>
    have hnot : x.engine ∉ a.engineNames := by
      rw [mem_engineNames_iff, hs]
      simp
    simp [settled, hs, hnot]
  | some s =>
    rw [settled_of_unrefused hs hquiet, verdict_eq_ok_iff]
    exact (and_iff_right (mem_engineNames_iff.mpr ⟨s, hs⟩)).symm

theorem settled_isOk_iff (hquiet : a.Unrefused selection o x) :
    (∃ e, a.settled selection o x = .ok e) ↔ a.Finishes selection o x.engine := by
  simp only [settled_eq_ok_iff hquiet, exists_and_left, ← verdict_eq_ok_iff, verdict_isOk_iff, Finishes]

/-- An engine on whose messages no listener raises has no results only if it is not registered or its report
is refused. -/
theorem settled_error (hquiet : a.Unrefused selection o x) {g : Fault}
    (hg : a.settled selection o x = .error g) :
    x.engine ∉ a.engineNames ∧ g = .unknown x.engine ∨
      ∃ r, (a.performance selection o x.engine).report = .ok r ∧
        ¬ r.Acceptable a.host selection x.engine ∧ g.ContractUnless (r.Untold a.host selection x.engine) := by
  cases hs : a.slots.get? x.engine with
  | none =>
    rw [settled, hs] at hg
    cases hg
    refine .inl ⟨?_, rfl⟩
    rw [mem_engineNames_iff, hs]
    simp
  | some s =>
    rw [settled_of_unrefused hs hquiet] at hg
    exact .inr (verdict_error hg)

/-- Either all engines have results, or the run ends at the first one that has none. -/
theorem reached_cases (a : Analyzer) (selection : Selection) (o : RunOptions) (xs : List TimedEngine) :
    (a.reached selection o xs = xs ∧ ∃ l, a.allSettled selection o xs = .ok l) ∨
      ∃ before x after g, xs = before ++ x :: after ∧ a.reached selection o xs = before ++ [x] ∧
        (∀ y ∈ before, ∃ e, a.settled selection o y = .ok e) ∧ a.settled selection o x = .error g ∧
        a.allSettled selection o xs = .error g := by
  induction xs with
  | nil => exact .inl ⟨rfl, [], rfl⟩
  | cons y rest ih =>
    rw [reached, allSettled_cons]
    cases hy : a.settled selection o y with
    | error g => exact .inr ⟨[], y, rest, g, rfl, rfl, List.forall_mem_nil _, hy, rfl⟩
    | ok e =>
      rcases ih with ⟨hall, l, hl⟩ | ⟨before, x, after, g, rfl, hreached, hbefore, hx, hg⟩
      · exact .inl ⟨by simp only [hall], e :: l, by simp only [hl]; rfl⟩
      · exact .inr ⟨y :: before, x, after, g, rfl, by simp only [hreached, List.cons_append],
          List.forall_mem_cons.mpr ⟨⟨e, hy⟩, hbefore⟩, hx, by simp only [hg]; rfl⟩

/-- All engines before one that is reached have results. -/
theorem exists_split_of_mem_reached (h : x ∈ a.reached selection o xs) :
    ∃ earlier later, xs = earlier ++ x :: later ∧
      ∀ y ∈ earlier, ∃ e, a.settled selection o y = .ok e := by
  induction xs with
  | nil => cases h
  | cons y rest ih =>
    rcases List.mem_cons.mp h with rfl | h
    · exact ⟨[], rest, rfl, List.forall_mem_nil _⟩
    · cases hy : a.settled selection o y with
      | error g =>
        rw [hy] at h
        cases h
      | ok e =>
        rw [hy] at h
        obtain ⟨earlier, later, rfl, hearlier⟩ := ih h
        exact ⟨y :: earlier, later, rfl, List.forall_mem_cons.mpr ⟨⟨e, hy⟩, hearlier⟩⟩

/-- After engines that have results, the script goes on with that of the later ones. -/
theorem script_append {earlier : List TimedEngine}
    (hearlier : ∀ x ∈ earlier, ∃ e, a.settled selection o x = .ok e) (later : List TimedEngine) :
    a.script selection o (earlier ++ later) =
      earlier.flatMap (a.part selection o) ++ a.script selection o later := by
  induction earlier with
  | nil => rfl
  | cons x rest ih =>
    obtain ⟨⟨e, he⟩, hrest⟩ := List.forall_mem_cons.mp hearlier
    rw [List.cons_append, script_cons, he, List.flatMap_cons, List.append_assoc]
    simp only [ih hrest]

theorem allSettled_append {earlier : List TimedEngine}
    (hearlier : ∀ x ∈ earlier, ∃ e, a.settled selection o x = .ok e) (later : List TimedEngine) :
    ∃ l, a.allSettled selection o (earlier ++ later) = (a.allSettled selection o later).map (l ++ ·) := by
  induction earlier with
  | nil =>
    refine ⟨[], ?_⟩
    rw [List.nil_append]
    cases a.allSettled selection o later <;> rfl
  | cons x rest ih =>
    obtain ⟨⟨e, he⟩, hrest⟩ := List.forall_mem_cons.mp hearlier
    obtain ⟨l, hl⟩ := ih hrest
    refine ⟨e :: l, ?_⟩
    rw [List.cons_append, allSettled_cons, he]
    simp only [hl]
    cases a.allSettled selection o later <;> rfl

/-! ## A message that is refused -/

/-- A listener raises on a forwarded message of the engine. The messages before it were forwarded, and the
fault is the outcome of the engine. -/
structure Interrupted (a : Analyzer) (selection : Selection) (o : RunOptions) (x : TimedEngine)
    (quiet : List (Event LogLevel)) (p : Published LogLevel) (f : Fault) : Prop where
  said : ∃ rest, a.forwarded selection o x.engine = quiet ++ p.event :: rest
  settled : a.settled selection o x = .ok (.failure x.engine f)
  part : a.part selection o x =
    (stamped x.tick (opening selection x.engine)).map .emits ++
      .starts x.engine (namesFor selection x.engine) :: (stamped x.start quiet).map .passes ++
        .passes p :: (stamped (p.tick + 1) (closing x.engine (.failure x.engine f))).map .emits

/-- A forwarded message on which a listener raises interrupts its engine. -/
theorem interrupted_of_mem_part {p : Published LogLevel} {f : Fault} (hp : .passes p ∈ a.part selection o x)
    (hf : a.refusalOf p = some f) : ∃ quiet, a.Interrupted selection o x quiet p f := by
  cases hs : a.slots.get? x.engine with
  | none => simp [part, hs] at hp
  | some s =>
    have hpublished : p ∈ stamped x.start (a.passed selection o x) := by
      simp only [part, hs, List.mem_append, List.mem_cons, List.mem_map] at hp
      rcases hp with ⟨q, -, hq⟩ | hq | ⟨q, hq, hpasses⟩ | hq
      · cases hq
      · cases hq
      · cases hpasses
        exact hq
      · cases hsettled : a.settled selection o x <;> simp [hsettled] at hq
    rcases a.published_cases x.start (a.forwarded selection o x.engine) with ⟨htakes, hsame⟩ | hcut
    · rw [passed, hsame] at hpublished
      rw [refusalOf_eq_none_iff.mpr (firstRefusal_eq_none_iff.mp htakes p hpublished)] at hf
      cases hf
    · obtain ⟨quiet, m, rest, f', hsaid, hquiet, hf', hsame, hfirst⟩ := hcut
      have hlast : p = ⟨x.start + quiet.length, m⟩ := by
        rw [passed, hsame, stamped_append, List.mem_append] at hpublished
        refine hpublished.elim (fun hmem => ?_) List.mem_singleton.mp
        rw [refusalOf_eq_none_iff.mpr (firstRefusal_eq_none_iff.mp hquiet p hmem)] at hf
        cases hf
      subst hlast
      obtain rfl : f = f' := Option.some.inj (hf.symm.trans hf')
      have hsettled : a.settled selection o x = .ok (.failure x.engine f) := by
        rw [settled_of_slot hs, response, hfirst]
        rfl
      refine ⟨quiet, ⟨rest, hsaid⟩, hsettled, ?_⟩
      simp [part, hs, passed, hsame, hsettled, stamped_append, stamped, Nat.add_assoc]

/-- The script of a run around a forwarded message on which a listener raises. -/
theorem exists_interrupted {p : Published LogLevel} {f : Fault} (hp : .passes p ∈ a.runScript selection o)
    (hf : a.refusalOf p = some f) :
    ∃ earlier x later quiet, a.runTimetable selection o = earlier ++ x :: later ∧
      (∀ y ∈ earlier, ∃ e, a.settled selection o y = .ok e) ∧
      a.Interrupted selection o x quiet p f ∧
      a.runScript selection o =
        (.emits ⟨a.clock, .log .debug (Diagnostic.runOptions o.toJson).text⟩ ::
          (earlier.flatMap (a.part selection o) ++ (stamped x.tick (opening selection x.engine)).map .emits ++
            .starts x.engine (namesFor selection x.engine) :: (stamped x.start quiet).map .passes)) ++
          .passes p ::
            ((stamped (p.tick + 1) (closing x.engine (.failure x.engine f))).map .emits ++
              a.script selection o later) := by
  rcases List.mem_cons.mp hp with hp | hp
  · cases hp
  · obtain ⟨x, hreached, hpart⟩ := List.mem_flatMap.mp hp
    obtain ⟨quiet, hinterrupted⟩ := interrupted_of_mem_part hpart hf
    obtain ⟨earlier, later, hsplit, hearlier⟩ := exists_split_of_mem_reached hreached
    refine ⟨earlier, x, later, quiet, hsplit, hearlier, hinterrupted, ?_⟩
    rw [runScript, hsplit, script_append hearlier, script_cons, hinterrupted.settled, hinterrupted.part]
    simp

/-- The outcome of a run in which a listener raises on one message of an engine and on nothing else. -/
structure Absorbed (a : Analyzer) (selection : Selection) (o : RunOptions) (engine : String) (f : Fault)
    (later : List TimedEngine) (outcome : Except Fault RunResults) : Prop where
  /-- The run returns if and only if every later engine is registered and accepted. -/
  returns : (∃ results, outcome = .ok results) ↔ ∀ x ∈ later, a.Finishes selection o x.engine
  all : ∀ results, outcome = .ok results → a.reached selection o later = later
  /-- The fault is kept for this engine, and every other entry is as it is without the fault. -/
  entries : ∀ results, outcome = .ok results → results.engineNames = selection.engineNames ∧
    ∀ name e, results.byEngine.get? name = some e ↔ name ∈ selection.engineNames ∧
      if name = engine then e = .failure engine f else a.Keeps selection o name e
  /-- Otherwise the run ends at the first later engine that is not registered or whose report is refused. -/
  ends : ∀ g, outcome = .error g → ∃ before x after, later = before ++ x :: after ∧
    a.reached selection o later = before ++ [x] ∧ (∀ y ∈ before, a.Finishes selection o y.engine) ∧
    (x.engine ∉ a.engineNames ∧ g = .unknown x.engine ∨
      ∃ r, (a.performance selection o x.engine).report = .ok r ∧
        ¬ r.Acceptable a.host selection x.engine ∧ g.ContractUnless (r.Untold a.host selection x.engine))

/-- If no listener raises on the forwarded messages of an engine, none of its messages is refused. -/
theorem unrefused_of_part (h : ∀ p, .passes p ∈ a.part selection o x → a.TakesAt p) :
    a.Unrefused selection o x := by
  cases hs : a.slots.get? x.engine with
  | none =>
    rw [Unrefused, forwarded, hs]
    rfl
  | some s =>
    rcases a.published_cases x.start (a.forwarded selection o x.engine) with ⟨htakes, -⟩ | hcut
    · exact htakes
    · obtain ⟨quiet, m, rest, f, -, -, hf, hsame, -⟩ := hcut
      have hm : .passes ⟨x.start + quiet.length, m⟩ ∈ a.part selection o x := by
        simp [part, hs, passed, hsame, stamped_append, stamped]
      rw [refusalOf_eq_none_iff.mpr (h _ hm)] at hf
      cases hf

section

variable {earlier later : List TimedEngine} {f : Fault}

/-- The entry of an engine in a run in which `f` interrupts the engine `engine`. -/
def KeepsFault (a : Analyzer) (selection : Selection) (o : RunOptions) (engine : String) (f : Fault)
    (name : String) (e : EngineResults) : Prop :=
  if name = engine then e = .failure engine f else a.Keeps selection o name e

theorem KeepsFault.engine_eq {engine name : String} {e : EngineResults}
    (h : a.KeepsFault selection o engine f name e) : e.engine = name := by
  unfold KeepsFault at h
  split at h
  · next heq => rw [h, heq]; rfl
  · exact h.engine_eq

theorem KeepsFault.unique {engine name : String} {e e' : EngineResults}
    (h : a.KeepsFault selection o engine f name e) (h' : a.KeepsFault selection o engine f name e') :
    e = e' := by
  unfold KeepsFault at h h'
  split at h
  · next heq =>
    rw [if_pos heq] at h'
    rw [h, h']
  · next hne =>
    rw [if_neg hne] at h'
    exact h.unique h'

/-- The results of an engine of the run are the entry that is kept for it. -/
theorem keepsFault_of_settled {y : TimedEngine} {e : EngineResults}
    (hsplit : a.runTimetable selection o = earlier ++ x :: later)
    (hfailed : a.settled selection o x = .ok (.failure x.engine f))
    (hquiet : ∀ z ∈ earlier ++ later, a.Unrefused selection o z)
    (hy : y ∈ a.runTimetable selection o) (he : a.settled selection o y = .ok e) :
    a.KeepsFault selection o x.engine f y.engine e := by
  have hmem := hy
  rw [hsplit, List.mem_append, List.mem_cons] at hmem
  unfold KeepsFault
  split
  case isTrue heq =>
    have hx : x ∈ a.runTimetable selection o := by simp [hsplit]
    obtain rfl : y = x := List.inj_on_of_nodup_map (nodup_engine_runTimetable selection o) hy hx heq
    rw [hfailed] at he
    exact (Except.ok.inj he).symm
  case isFalse hne =>
    have hother : y ∈ earlier ++ later := List.mem_append.mpr
      (hmem.imp_right fun h => h.resolve_left fun heq => hne (congrArg TimedEngine.engine heq))
    exact ((settled_eq_ok_iff (hquiet y hother)).mp he).2

/-- If all later engines have results, so has the run. -/
theorem absorbed_of_settled {l : List EngineResults}
    (hsplit : a.runTimetable selection o = earlier ++ x :: later)
    (hfailed : a.settled selection o x = .ok (.failure x.engine f))
    (hquiet : ∀ y ∈ earlier ++ later, a.Unrefused selection o y)
    (hreached : a.reached selection o later = later)
    (hok : a.allSettled selection o (a.runTimetable selection o) = .ok l) :
    a.Absorbed selection o x.engine f later (.ok (RunResults.ofList l)) := by
  have hpartners := mapM_eq_ok_iff.mp hok
  have hkept : List.Forall₂ (a.KeepsFault selection o x.engine f) selection.engineNames l := by
    rw [← map_engine_runTimetable (a := a) selection o, List.forall₂_map_left_iff]
    exact ((List.forall₂_and_left _ _).mpr ⟨fun _ hy => hy, hpartners⟩).imp
      fun y e hy => keepsFault_of_settled hsplit hfailed hquiet hy.1 hy.2
  obtain ⟨hnames, hentries⟩ := ofList_of_partners (fun _ _ he => he.engine_eq)
    (fun _ _ _ he he' => he.unique he') selection.groups.keys_nodup hkept
  refine ⟨⟨fun _ y hy => ?_, fun _ => ⟨_, rfl⟩⟩, fun _ _ => hreached, ?_, fun _ herror => by cases herror⟩
  · have hmem : y ∈ a.runTimetable selection o := by
      rw [hsplit]
      exact List.mem_append_right _ (List.mem_cons_of_mem _ hy)
    obtain ⟨e, -, he⟩ := exists_partner hpartners hmem
    exact (settled_isOk_iff (hquiet y (List.mem_append_right _ hy))).mp ⟨e, he⟩
  · intro results hresults
    cases hresults
    exact ⟨hnames, hentries⟩

/-- If a later engine has no results, the run ends there. -/
theorem absorbed_of_unsettled {before after : List TimedEngine} {engine : String} {g : Fault}
    (hquiet : ∀ y ∈ before ++ [x], a.Unrefused selection o y)
    (hreached : a.reached selection o (before ++ x :: after) = before ++ [x])
    (hoks : ∀ y ∈ before, ∃ e, a.settled selection o y = .ok e)
    (hx : a.settled selection o x = .error g) :
    a.Absorbed selection o engine f (before ++ x :: after) (.error g) := by
  have hquietx : a.Unrefused selection o x := hquiet x (by simp)
  refine ⟨⟨nofun, fun hfinishes => ?_⟩, nofun, nofun, ?_⟩
  · obtain ⟨e, he⟩ := (settled_isOk_iff hquietx).mpr (hfinishes x (by simp))
    rw [hx] at he
    cases he
  · intro g' hg'
    cases hg'
    exact ⟨before, x, after, rfl, hreached,
      fun y hy => (settled_isOk_iff (hquiet y (by simp [hy]))).mp (hoks y hy), settled_error hquietx hx⟩

theorem absorbed_of_quiet (hsplit : a.runTimetable selection o = earlier ++ x :: later)
    (hearlier : ∀ y ∈ earlier, ∃ e, a.settled selection o y = .ok e)
    (hfailed : a.settled selection o x = .ok (.failure x.engine f))
    (hquiet : ∀ y ∈ earlier ++ a.reached selection o later, a.Unrefused selection o y) :
    a.Absorbed selection o x.engine f later
      ((a.allSettled selection o (a.runTimetable selection o)).map RunResults.ofList) := by
  have hbefore : ∀ y ∈ earlier ++ [x], ∃ e, a.settled selection o y = .ok e :=
    List.forall_mem_append.mpr ⟨hearlier, List.forall_mem_singleton.mpr ⟨_, hfailed⟩⟩
  obtain ⟨l, hl⟩ := allSettled_append hbefore later
  rw [List.append_assoc, List.singleton_append, ← hsplit] at hl
  rcases reached_cases a selection o later with
    ⟨hall, l', hl'⟩ | ⟨before, y, after, g, rfl, hreached, hoks, hy, hg⟩
  · have hok : a.allSettled selection o (a.runTimetable selection o) = .ok (l ++ l') := by rw [hl, hl']; rfl
    rw [hall] at hquiet
    rw [hok]
    exact absorbed_of_settled hsplit hfailed hquiet hall hok
  · have herror : a.allSettled selection o (a.runTimetable selection o) = .error g := by rw [hl, hg]; rfl
    rw [hreached] at hquiet
    rw [herror]
    exact absorbed_of_unsettled (fun z hz => hquiet z (List.mem_append_right _ hz)) hreached hoks hy

end

/-! ## Where a refusal goes -/

/-- A listener raises on one event of `run`, which may be any event of `runScript`, also one that equals
others. If the analyzer emits it itself and no listener raised before, the run fails with that fault right
after this event: it emits nothing more and starts no further engine. If it is a forwarded message and no
listener raises on another event, the fault interrupts its engine. It is logged and kept as the engine's
results, and the run goes on as it does without it: with all later engines, up to the first that is not
registered or whose report is refused. -/
theorem run_refused {w : Workspace} {points : List String}
    (hresolved : RunOptions.resolve a.host w points = .ok o) :
    (∀ before p after f, a.runScript selection o = before ++ .emits p :: after →
      (∀ q, .emits q ∈ before → a.TakesAt q) → a.refusalOf p = some f →
        ∃ b, (run selection w points).drive a = (.error f, b) ∧ Passage o (before ++ [.emits p]) a b) ∧
    ∀ before p after f, a.runScript selection o = before ++ .passes p :: after → a.refusalOf p = some f →
      (∀ q ∈ Cue.emitted (before ++ after), a.TakesAt q) →
        ∃ earlier x later quiet outcome b,
          a.runTimetable selection o = earlier ++ x :: later ∧
          selection.engineNames =
            earlier.map TimedEngine.engine ++ x.engine :: later.map TimedEngine.engine ∧
          (run selection w points).drive a = (outcome, b) ∧ Passage o (a.runScript selection o) a b ∧
          (∃ rest, a.forwarded selection o x.engine = quiet ++ p.event :: rest) ∧
          before = .emits ⟨a.clock, .log .debug (Diagnostic.runOptions o.toJson).text⟩ ::
            (earlier.flatMap (a.part selection o) ++
              (stamped x.tick (opening selection x.engine)).map .emits ++
              .starts x.engine (namesFor selection x.engine) :: (stamped x.start quiet).map .passes) ∧
          after = (stamped (p.tick + 1)
            [.log .error (Diagnostic.engineRunFailed x.engine f.text).text,
              .progress x.engine (.given (.ofNat 100)), .results (.failure x.engine f)]).map .emits ++
                a.script selection o later ∧
          a.Absorbed selection o x.engine f later outcome := by
  obtain ⟨b, hdrive, hpassage⟩ := run_enacts selection hresolved
  refine ⟨fun before p after f hsplit hbefore hf => ?_, fun before p after f hsplit hf hothers => ?_⟩
  · obtain ⟨hstop, hplayed⟩ := played_of_split after hbefore hf
    rw [hsplit, hstop] at hdrive
    rw [hsplit, hplayed] at hpassage
    exact ⟨b, hdrive, hpassage⟩
  · have htaken : ∀ c ∈ before ++ after, ∀ q, c.event? = some q → a.TakesAt q :=
      fun c hc q hq => hothers q (List.mem_filterMap.mpr ⟨c, hc, hq⟩)
    have hnotin : ∀ c ∈ before ++ after, c ≠ .passes p := by
      intro c hc heq
      rw [refusalOf_eq_none_iff.mpr (htaken _ hc p (by rw [heq]; rfl))] at hf
      cases hf
    have hnone : a.stop (a.runScript selection o) = none := by
      refine stop_eq_none_iff.mpr fun q hq => htaken (.emits q) ?_ q rfl
      rw [hsplit, List.mem_append, List.mem_cons] at hq
      exact List.mem_append.mpr (hq.imp_right fun h => h.resolve_left nofun)
    rw [hnone] at hdrive
    rw [played_of_none hnone] at hpassage
    obtain ⟨earlier, x, later, quiet, hnames, hearlier, hinterrupted, hscript⟩ :=
      exists_interrupted (by rw [hsplit]; exact List.mem_append_right _ List.mem_cons_self) hf
    -- the message is found in the script only once, so the script is split in the same way
    obtain ⟨rfl, -, rfl⟩ := (List.append_cons_inj_of_notMem
      (fun hmem => hnotin _ (List.mem_append_left _ hmem) rfl)
      (fun hmem => hnotin _ (List.mem_append_right _ hmem) rfl)).mp (hsplit.symm.trans hscript)
    have hengines : selection.engineNames =
        earlier.map TimedEngine.engine ++ x.engine :: later.map TimedEngine.engine := by
      rw [← List.map_cons, ← List.map_append, ← hnames, map_engine_runTimetable]
    refine ⟨earlier, x, later, quiet, _, b, hnames, hengines, hdrive, hpassage, hinterrupted.said, rfl, rfl, ?_⟩
    refine absorbed_of_quiet hnames hearlier hinterrupted.settled fun y hy =>
      unrefused_of_part fun q hq => htaken (.passes q) ?_ q rfl
    rcases List.mem_append.mp hy with hy | hy
    · have hmem : .passes q ∈ earlier.flatMap (a.part selection o) := List.mem_flatMap.mpr ⟨y, hy, hq⟩
      simp [hmem]
    · have hmem : .passes q ∈ a.script selection o later := List.mem_flatMap.mpr ⟨y, hy, hq⟩
      simp [hmem]

/-! ## Three small engines -/

/-- An engine that logs the same message twice. -/
def loggingEngine : ExternalEngine where
  name := .ok "loggingEngine"
  describe _ := { outcome := .ok (.arr []) }
  run _ _ :=
    { messages := [.ok (.log .info "Looking for tabs."), .ok (.log .info "Looking for tabs.")],
      report := .ok (.findings []) }

/-- An engine that reports a finding of a rule that it does not have. -/
def unsoundEngine : ExternalEngine where
  name := .ok "unsoundEngine"
  describe _ := { outcome := .ok (.arr []) }
  run _ _ :=
    { report := .ok (.findings
        [{ rule := "None", message := "Nothing.", primaryIndex := 0, resourceUrls := [], locations := [] }]) }

/-- A plugin with these two engines and one that fails. -/
def threeEngines : Plugin where
  names := .ok ["loggingEngine", "unsoundEngine", "broken"]
  make name _ :=
    { outcome := .ok (.external
        (if name = "loggingEngine" then loggingEngine
        else if name = "unsoundEngine" then unsoundEngine else broken)) }

/-- A rule of each of the given engines. -/
def oneRuleEach (engines : List String) : List Rule :=
  engines.map fun engine => ⟨engine, { name := "Tab", severity := .low }⟩

/-- The second log message of the first engine. The same one was emitted one reading before. -/
def tabsLogged : Published LogLevel := ⟨7, .engineLog "loggingEngine" .info "Looking for tabs."⟩

/-- The fault of a listener. -/
def listenerFault : Fault := .raised .listener "Occupied."

/-- The analyzer with these engines and with a listener to `engineLog` that raises at reading 7 only. The
event at reading 6 is equal. -/
def raisesAtSeven : Analyzer :=
  ((addPlugin threeEngines).drive
    (oneFile.listen [.engineLog] fun p => if p.tick = 7 then some listenerFault else none).2).2

theorem raisesAtSeven_takesAt {ps : List (Published LogLevel)} (h : ps.all (fun p => p.tick ≠ 7) = true) :
    ∀ p ∈ ps, raisesAtSeven.TakesAt p := by
  intro p hp k hk
  have htick : p.tick ≠ 7 := by simpa using List.all_eq_true.mp h p hp
  show (if k = 0 then if p.tick = 7 then some listenerFault else none else none) = none
  simp [htick]

/-- The fault at one message becomes the results of its engine, and the other engine runs. -/
theorem run_refused_raisesAtSeven :
    ∃ engine results b, engine ∈ (Selection.ofList (oneRuleEach ["loggingEngine", "broken"])).engineNames ∧
      (run (.ofList (oneRuleEach ["loggingEngine", "broken"])) oneFileWorkspace []).drive raisesAtSeven =
        (.ok results, b) ∧
      results.byEngine.get? engine = some (.failure engine listenerFault) ∧
      (b.slots.get? "broken").map Slot.runs = some [(["Tab"], ⟨oneFileWorkspace, none⟩)] := by
  obtain ⟨-, hpassed⟩ := @run_refused raisesAtSeven (.ofList (oneRuleEach ["loggingEngine", "broken"]))
    ⟨oneFileWorkspace, none⟩ oneFileWorkspace [] rfl
  obtain ⟨earlier, x, later, quiet, outcome, b, -, hnames, hdrive, -, -, -, -, habsorbed⟩ :=
    hpassed [_, _, _, _, _] tabsLogged _ listenerFault (by rfl) (by rfl) (raisesAtSeven_takesAt (by rfl))
  have hengine : x.engine ∈ (Selection.ofList (oneRuleEach ["loggingEngine", "broken"])).engineNames := by
    simp [hnames]
  have houtcome : outcome = .ok _ := congrArg Prod.fst hdrive.symm
  have hb : b = _ := congrArg Prod.snd hdrive.symm
  obtain ⟨-, hentries⟩ := habsorbed.entries _ houtcome
  refine ⟨x.engine, _, b, hengine, by rw [hdrive, houtcome], ?_, by rw [hb]; rfl⟩
  exact (hentries x.engine _).mpr ⟨hengine, by rw [if_pos rfl]⟩

/-- The listener raises on one message of the first engine only. The report of the second engine is refused,
so the third one is not started. -/
theorem later_engine_unstarted :
    (Selection.ofList (oneRuleEach ["loggingEngine", "unsoundEngine", "broken"])).engineNames =
        ["loggingEngine", "unsoundEngine", "broken"] ∧
      ∃ before after d b,
        raisesAtSeven.runScript (.ofList (oneRuleEach ["loggingEngine", "unsoundEngine", "broken"]))
          ⟨oneFileWorkspace, none⟩ = before ++ .passes tabsLogged :: after ∧
        raisesAtSeven.refusalOf tabsLogged = some listenerFault ∧
        (∀ p ∈ Cue.emitted (before ++ after), raisesAtSeven.TakesAt p) ∧
        (run (.ofList (oneRuleEach ["loggingEngine", "unsoundEngine", "broken"])) oneFileWorkspace []).drive
          raisesAtSeven = (.error (.contract d), b) ∧
        (b.slots.get? "broken").map Slot.runs = some [] := by
  refine ⟨rfl, [_, _, _, _, _], _, _, _, by rfl, by rfl, ?_, by rfl, by rfl⟩
  exact raisesAtSeven_takesAt (by rfl)

end Polyscan.Analyzer
