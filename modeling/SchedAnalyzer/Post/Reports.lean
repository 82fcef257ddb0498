import SchedAnalyzer.Post.SaTrack

/-! # The reports that are asked for

`main` of sched-analyzer-pp goes through its options module by module. Whether a report
goes to the terminal is kept in a flag that an image or a table of a module clears. What
raises ends everything behind it, and nothing is said about it.
-/

namespace SchedAnalyzer

open Foundation.Lists

/-! ## Options -/

/-- The modules that have reports. -/
inductive PpModule
  | freq
  | idle
  | saTrack (signal : PpSignal)
  | sched
  deriving DecidableEq, Repr

/-- The four reports of a signal. -/
inductive TrackReport
  | plot
  | hist
  | residency
  | residencyAbs
  deriving DecidableEq, Repr

/-- The options that ask for a report. -/
inductive PpReport
  | freq
  | freqResidency
  | freqResidencyAbs
  | freqTask
  | freqResidencyTask
  | freqResidencyAbsTask
  | idleResidency
  | idleResidencyAbs
  | saTrack (signal : PpSignal) (running : Bool) (report : TrackReport)
  | schedReport
  | schedStates
  | schedStatesParent
  deriving DecidableEq, Repr

/-- The signals that are processed with `running_options`. -/
def PpSignal.runningOptions : PpSignal → Bool
  | utilAvg | utilEst | loadAvg | runnableAvg | uclampedAvg => true
  | utilAvgRt | utilAvgDl | utilAvgIrq | loadAvgThermal | cpuNrRunning => false

/-- What argparse found: the patterns of an option, none of them for a flag. There are
no options for the running time of a signal without `running_options`. -/
structure PpArgs where
  saveCsv : Bool
  savePng : Bool
  given : PpReport → Option (List String)
  noRunning : ∀ signal report, signal.runningOptions = false →
    given (.saTrack signal true report) = none

/-- The parser has an option for the report. -/
def PpReport.isOption : PpReport → Bool
  | .saTrack signal running _ => !running || signal.runningOptions
  | _ => true

/-- The result of argparse for options in the order of the command line, each with its
pattern unless it is a flag. -/
def PpArgs.ofOptions (saveCsv savePng : Bool) (options : List (PpReport × Option String)) :
    PpArgs where
  saveCsv := saveCsv
  savePng := savePng
  given report :=
    if report.isOption && options.any (fun option => option.1 = report) then
      some ((options.filter fun option => option.1 = report).filterMap Prod.snd)
    else none
  noRunning signal report hnone := by
    simp [PpReport.isOption, hnone]

/-- The report is asked for. -/
def PpArgs.asks (args : PpArgs) (report : PpReport) : Bool :=
  (args.given report).isSome

/-- One of some reports is asked for. -/
def PpArgs.asksAny (args : PpArgs) (reports : List PpReport) : Bool :=
  reports.any args.asks

/-- `signal + postfix`. -/
def trackOptionName (signal : PpSignal) (running : Bool) : String :=
  signal.name ++ if running then "_running" else ""

/-- `'running' in name`. -/
def multiplyRunning (signal : PpSignal) (running : Bool) : Bool :=
  "running".toList <:+: (trackOptionName signal running).toList

/-- The number of running tasks has the word in its own name. -/
theorem multiplyRunning_eq (signal : PpSignal) (running : Bool) :
    multiplyRunning signal running = (running || signal = .cpuNrRunning) := by
  cases signal <;> cases running <;> decide

/-! ## Steps -/

/-- What is called, or printed as not implemented. -/
inductive PpEffect
  | init (module : PpModule)
  | saveCsv (module : PpModule)
  | image (report : PpReport)
  | notImplemented (option : String)
  | tui (report : PpReport) (patterns : List String) (multiplyRunning : Bool)
  deriving DecidableEq, Repr

/-- A statement of `main`: a call, or a name that is not defined. -/
inductive PpStep
  | call (effect : PpEffect)
  | nameError
  deriving DecidableEq, Repr

/-- The last argument of a report. -/
def PpReport.multiply : PpReport → Bool
  | .saTrack signal running _ => multiplyRunning signal running
  | _ => false

/-- The branches `if args.report: ...` of a module, with what `--save-png` does in each. -/
def branchSteps (args : PpArgs) (showTui : Bool) : List (PpReport × PpStep) → List PpStep
  | [] => []
  | (report, onPng) :: rest =>
      match args.given report with
      | none => branchSteps args showTui rest
      | some patterns =>
          let showTui' := showTui && !args.savePng
          (if args.savePng then [onPng] else []) ++
            (if showTui' then [.call (.tui report patterns report.multiply)] else []) ++
              branchSteps args showTui' rest

/-- The part of `main` for a module. -/
def moduleSteps (args : PpArgs) (module : PpModule) (onCsv : PpStep) (condition : List PpReport)
    (branches : List (PpReport × PpStep)) : List PpStep :=
  if args.asksAny condition then
    .call (.init module) ::
      ((if args.saveCsv then [onCsv] else []) ++ branchSteps args (!args.saveCsv) branches)
  else []

def freqReports : List PpReport :=
  [.freq, .freqResidency, .freqResidencyAbs, .freqTask, .freqResidencyTask,
    .freqResidencyAbsTask]

def mainFreqSteps (args : PpArgs) : List PpStep :=
  moduleSteps args .freq (.call (.saveCsv .freq)) freqReports
    [(.freq, .call (.image .freq)),
      (.freqResidency, .call (.image .freqResidency)),
      (.freqResidencyAbs, .call (.image .freqResidencyAbs)),
      (.freqTask, .call (.notImplemented "freq-task")),
      (.freqResidencyTask, .call (.notImplemented "freq-residency-task")),
      (.freqResidencyAbsTask, .call (.notImplemented "freq-residency-abs-task"))]

def idleReports : List PpReport :=
  [.idleResidency, .idleResidencyAbs]

def mainIdleSteps (args : PpArgs) : List PpStep :=
  moduleSteps args .idle (.call (.saveCsv .idle)) idleReports
    [(.idleResidency, .call (.image .idleResidency)),
      (.idleResidencyAbs, .call (.image .idleResidencyAbs))]

/-- The options that `process_sa_track_option` looks at first. -/
def trackCondition (signal : PpSignal) (running : Bool) : List PpReport :=
  [.saTrack signal running .plot, .saTrack signal running .hist,
    .saTrack signal running .residency]

/-- `process_sa_track_option` with one postfix. The name `prefix` is not defined there. -/
def trackSteps (args : PpArgs) (signal : PpSignal) (running : Bool) : List PpStep :=
  moduleSteps args (.saTrack signal) .nameError (trackCondition signal running)
    [(.saTrack signal running .plot, .nameError),
      (.saTrack signal running .hist, .nameError),
      (.saTrack signal running .residency,
        .call (.notImplemented (trackOptionName signal running ++ "_residency"))),
      (.saTrack signal running .residencyAbs,
        .call (.notImplemented (trackOptionName signal running ++ "_residency_abs")))]

/-- `process_sa_track_option(args, trace, signal, running_options)`. -/
def processSaTrackOption (args : PpArgs) (signal : PpSignal) (runningOptions : Bool) :
    List PpStep :=
  trackSteps args signal false ++ if runningOptions then trackSteps args signal true else []

/-- The signals in the order of `main`. -/
def ppSignals : List PpSignal :=
  [.utilAvg, .utilAvgRt, .utilAvgDl, .utilAvgIrq, .utilEst, .loadAvgThermal, .loadAvg,
    .runnableAvg, .uclampedAvg, .cpuNrRunning]

def mainSaTrackSteps (args : PpArgs) : List PpStep :=
  ppSignals.flatMap fun signal => processSaTrackOption args signal signal.runningOptions

def schedReports : List PpReport :=
  [.schedReport, .schedStates, .schedStatesParent]

/-- The reports that are shown, with their arguments. -/
def PpArgs.tui (args : PpArgs) (report : PpReport) : Option PpEffect :=
  (args.given report).map fun patterns => .tui report patterns report.multiply

/-- The part of `main` for the states. Here the message comes once. -/
def mainSchedSteps (args : PpArgs) : List PpStep :=
  if args.asksAny schedReports then
    .call (.init .sched) ::
      ((if args.saveCsv then [.call (.saveCsv .sched)] else []) ++
        ((if args.savePng then [.call (.notImplemented "sched-*")] else []) ++
          if !args.saveCsv && !args.savePng then (schedReports.filterMap args.tui).map .call
          else []))
  else []

/-- `main()` after the settings. -/
def mainSteps (args : PpArgs) : List PpStep :=
  mainFreqSteps args ++ (mainIdleSteps args ++ (mainSaTrackSteps args ++ mainSchedSteps args))

/-- What is done up to the first call that raises, and whether one does. -/
def perform (raises : PpEffect → Bool) : List PpStep → List PpEffect × Bool
  | [] => ([], false)
  | .nameError :: _ => ([], true)
  | .call effect :: rest =>
      if raises effect then ([effect], true)
      else
        let (effects, raised) := perform raises rest
        (effect :: effects, raised)

/-! ## Steps that are performed -/

section Perform

/-- What is done if no call raises. -/
def done (steps : List PpStep) : List PpEffect :=
  (perform (fun _ => false) steps).1

/-- The calls of some steps. -/
def PpStep.effect? : PpStep → Option PpEffect
  | call effect => some effect
  | nameError => none

def calls (steps : List PpStep) : List PpEffect :=
  steps.filterMap PpStep.effect?

@[simp] theorem done_nil : done [] = [] := rfl

@[simp] theorem done_nameError (steps : List PpStep) : done (.nameError :: steps) = [] := rfl

@[simp] theorem done_call (effect : PpEffect) (steps : List PpStep) :
    done (.call effect :: steps) = effect :: done steps := rfl

/-- More steps are performed behind some that do not end. -/
theorem done_append (first second : List PpStep) :
    done (first ++ second) = done first ++ if .nameError ∈ first then [] else done second := by
  induction first with
  | nil => simp
  | cons step rest ih =>
      cases step with
      | nameError => simp
      | call effect => simp [ih]

theorem done_eq_calls {steps : List PpStep} (hno : .nameError ∉ steps) :
    done steps = calls steps := by
  induction steps with
  | nil => rfl
  | cons step rest ih =>
      obtain ⟨hstep, hrest⟩ := not_or.mp (List.mem_cons.not.mp hno)
      cases step with
      | nameError => exact absurd rfl hstep
      | call effect =>
          rw [done_call, ih hrest]
          rfl

theorem call_mem_of_mem_done {steps : List PpStep} {effect : PpEffect}
    (heffect : effect ∈ done steps) : .call effect ∈ steps := by
  induction steps with
  | nil => exact absurd heffect List.not_mem_nil
  | cons step rest ih =>
      cases step with
      | nameError => exact absurd heffect List.not_mem_nil
      | call first =>
          rw [done_call] at heffect
          rcases List.mem_cons.mp heffect with rfl | hrest
          · exact List.mem_cons_self
          · exact List.mem_cons_of_mem _ (ih hrest)

/-- It ends early exactly at a name that is not defined. -/
theorem raised_iff (steps : List PpStep) :
    (perform (fun _ => false) steps).2 = true ↔ .nameError ∈ steps := by
  induction steps with
  | nil => simp [perform]
  | cons step rest ih =>
      cases step with
      | nameError => simp [perform]
      | call effect => simpa [perform] using ih

/-- A call that raises leaves what was done before it. -/
theorem perform_isPrefix (raises : PpEffect → Bool) (steps : List PpStep) :
    (perform raises steps).1 <+: done steps := by
  induction steps with
  | nil => exact List.prefix_rfl
  | cons step rest ih =>
      cases step with
      | nameError => exact List.prefix_rfl
      | call effect =>
          rw [done_call, perform]
          split
          · exact (List.prefix_cons_inj effect).mpr List.nil_prefix
          · exact (List.prefix_cons_inj effect).mpr ih

end Perform

/-! ## The steps of a module -/

section Modules

variable {args : PpArgs}

/-- The branches keep the flag for the terminal, so they all end up at one place. -/
theorem branchSteps_eq (args : PpArgs) (showTui : Bool) (branches : List (PpReport × PpStep)) :
    branchSteps args showTui branches =
      if args.savePng then (branches.filter fun branch => args.asks branch.1).map Prod.snd
      else if showTui then ((branches.map Prod.fst).filterMap args.tui).map .call
      else [] := by
  induction branches generalizing showTui with
  | nil => simp [branchSteps]
  | cons branch rest ih =>
      obtain ⟨report, onPng⟩ := branch
      rw [branchSteps]
      cases hgiven : args.given report with
      | none =>
          have htui : args.tui report = none := by rw [PpArgs.tui, hgiven]; rfl
          have hasks : args.asks report = false := by rw [PpArgs.asks, hgiven]; rfl
          cases hpng : args.savePng <;> cases showTui <;> simp [ih, hpng, htui, hasks]
      | some patterns =>
          have htui : args.tui report = some (.tui report patterns report.multiply) := by
            rw [PpArgs.tui, hgiven]; rfl
          have hasks : args.asks report = true := by rw [PpArgs.asks, hgiven]; rfl
          cases hpng : args.savePng <;> cases showTui <;> simp [ih, hpng, htui, hasks]

theorem mem_branchSteps_iff {showTui : Bool} {branches : List (PpReport × PpStep)}
    {step : PpStep} :
    step ∈ branchSteps args showTui branches ↔
      (args.savePng = true ∧ ∃ branch ∈ branches, args.asks branch.1 = true ∧ step = branch.2) ∨
        (args.savePng = false ∧ showTui = true ∧
          ∃ branch ∈ branches, ∃ effect ∈ args.tui branch.1, step = .call effect) := by
  rw [branchSteps_eq]
  cases args.savePng with
  | true =>
      rw [if_pos rfl, List.mem_map]
      simp only [List.mem_filter, true_and, Bool.true_eq_false, false_and, or_false, and_assoc]
      exact exists_congr fun branch => and_congr_right fun _ => and_congr_right fun _ => eq_comm
  | false =>
      rw [if_neg Bool.false_ne_true]
      cases showTui with
      | true =>
          rw [if_pos rfl, List.mem_map]
          simp only [List.mem_filterMap, List.mem_map, Bool.false_eq_true, false_and, false_or,
            true_and, Option.mem_def]
          constructor
          · rintro ⟨effect, ⟨report, ⟨branch, hbranch, rfl⟩, heffect⟩, rfl⟩
            exact ⟨branch, hbranch, effect, heffect, rfl⟩
          · rintro ⟨branch, hbranch, effect, heffect, rfl⟩
            exact ⟨effect, ⟨branch.1, ⟨branch, hbranch, rfl⟩, heffect⟩, rfl⟩
      | false => simp

/-- All that a module does. -/
theorem mem_moduleSteps_iff {module : PpModule} {onCsv : PpStep} {condition : List PpReport}
    {branches : List (PpReport × PpStep)} {step : PpStep} :
    step ∈ moduleSteps args module onCsv condition branches ↔
      (∃ report ∈ condition, args.asks report = true) ∧
        (step = .call (.init module) ∨ (args.saveCsv = true ∧ step = onCsv) ∨
          (args.savePng = true ∧ ∃ branch ∈ branches, args.asks branch.1 = true ∧
            step = branch.2) ∨
          (args.savePng = false ∧ args.saveCsv = false ∧
            ∃ branch ∈ branches, ∃ effect ∈ args.tui branch.1, step = .call effect)) := by
  have hcondition : args.asksAny condition = true ↔
      ∃ report ∈ condition, args.asks report = true := List.any_eq_true
  rw [moduleSteps, ← hcondition]
  split
  next hasked =>
    have hcsv : step ∈ (if args.saveCsv = true then [onCsv] else []) ↔
        args.saveCsv = true ∧ step = onCsv := by
      split <;> simp [*]
    rw [List.mem_cons, List.mem_append, hcsv, mem_branchSteps_iff, Bool.not_eq_true']
    exact (and_iff_right hasked).symm
  next hnot => exact iff_of_false List.not_mem_nil fun hboth => hnot hboth.1

end Modules

/-! ## What is shown, drawn and written -/

/-- The effect is a report on the terminal. -/
def PpEffect.isTui : PpEffect → Bool
  | tui .. => true
  | _ => false

/-- The report that is drawn. -/
def PpEffect.image? : PpEffect → Option PpReport
  | image report => some report
  | _ => none

/-- The module whose table is written. -/
def PpEffect.table? : PpEffect → Option PpModule
  | saveCsv module => some module
  | _ => none

namespace PpArgs

variable (args : PpArgs)

/-- The residency in ms of a signal is only looked at for one of the other reports. -/
def reaches : PpReport → Bool
  | .saTrack signal running _ => args.asksAny (trackCondition signal running)
  | _ => true

/-- A save option comes with a report of a signal that uses the name of the trace. -/
def failsOn (signal : PpSignal) (running : Bool) : Bool :=
  args.asksAny (trackCondition signal running) && (args.saveCsv ||
    (args.savePng && (args.asks (.saTrack signal running .plot) ||
      args.asks (.saTrack signal running .hist))))

def fails : Bool :=
  ppSignals.any fun signal => args.failsOn signal false || args.failsOn signal true

end PpArgs

/-- The reports of a signal. -/
def trackReports (signal : PpSignal) (running : Bool) : List PpReport :=
  [.plot, .hist, .residency, .residencyAbs].map (.saTrack signal running)

/-- All reports, in the order of `main`. -/
def reportOrder : List PpReport :=
  freqReports ++ (idleReports ++
    ((ppSignals.flatMap fun signal => trackReports signal false ++ trackReports signal true) ++
      schedReports))

/-- The reports that can be drawn. -/
def imageReports : List PpReport :=
  [.freq, .freqResidency, .freqResidencyAbs, .idleResidency, .idleResidencyAbs]

/-- What `main` does for its options. -/
structure DoesAsAsked (args : PpArgs) : Prop where
  /-- On the terminal without a save option, each report that is reached, once and in order. -/
  tui : (done (mainSteps args)).filter PpEffect.isTui =
    if args.saveCsv || args.savePng then []
    else (reportOrder.filter args.reaches).filterMap args.tui
  /-- With `--save-png`, the reports that can be drawn, of those that are asked for. -/
  images : (done (mainSteps args)).filterMap PpEffect.image? =
    if args.savePng then imageReports.filter args.asks else []
  /-- With `--save-csv` a signal has no table, and the states have one if no signal failed. -/
  tables : (done (mainSteps args)).filterMap PpEffect.table? =
    if args.saveCsv then
      (if args.asksAny freqReports then [.freq] else []) ++
        ((if args.asksAny idleReports then [.idle] else []) ++
          if args.asksAny schedReports && !args.fails then [.sched] else [])
    else []
  fails : (perform (fun _ => false) (mainSteps args)).2 = args.fails
  /-- What runs is set apart for the options for it, and always for the number of tasks. -/
  multiplied : ∀ {signal running report patterns multiply},
    .tui (.saTrack signal running report) patterns multiply ∈ done (mainSteps args) →
      multiply = (running || signal = .cpuNrRunning)
  /-- Where a call raises, what comes before it is done. -/
  raises : ∀ raises, (perform raises (mainSteps args)).1 <+: done (mainSteps args)

section Main

variable (args : PpArgs)

/-- The steps of a signal that has no options for the running time are none. -/
theorem trackSteps_running {signal : PpSignal} (hnone : signal.runningOptions = false) :
    trackSteps args signal true = [] := by
  have hgiven := fun report => args.noRunning signal report hnone
  simp [trackSteps, moduleSteps, trackCondition, PpArgs.asksAny, PpArgs.asks, hgiven]

theorem processSaTrackOption_eq (signal : PpSignal) :
    processSaTrackOption args signal signal.runningOptions =
      trackSteps args signal false ++ trackSteps args signal true := by
  rw [processSaTrackOption]
  split
  next => rfl
  next hnone => rw [trackSteps_running args (Bool.eq_false_iff.mpr hnone)]

theorem mem_mainSaTrackSteps_iff {step : PpStep} :
    step ∈ mainSaTrackSteps args ↔
      ∃ signal ∈ ppSignals, step ∈ trackSteps args signal false ∨
        step ∈ trackSteps args signal true := by
  simp only [mainSaTrackSteps, List.mem_flatMap, processSaTrackOption_eq, List.mem_append]

/-- The name is used for a table, a plot and a histogram. -/
theorem nameError_mem_trackSteps_iff {signal : PpSignal} {running : Bool} :
    .nameError ∈ trackSteps args signal running ↔ args.failsOn signal running = true := by
  rw [trackSteps, mem_moduleSteps_iff, PpArgs.failsOn, PpArgs.asksAny, Bool.and_eq_true,
    List.any_eq_true]
  simp

theorem nameError_mem_mainSaTrackSteps_iff :
    .nameError ∈ mainSaTrackSteps args ↔ args.fails = true := by
  simp only [mem_mainSaTrackSteps_iff, nameError_mem_trackSteps_iff, PpArgs.fails, List.any_eq_true,
    Bool.or_eq_true]

theorem nameError_notMem_mainFreqSteps : .nameError ∉ mainFreqSteps args := by
  rw [mainFreqSteps, mem_moduleSteps_iff]
  simp

theorem nameError_notMem_mainIdleSteps : .nameError ∉ mainIdleSteps args := by
  rw [mainIdleSteps, mem_moduleSteps_iff]
  simp

theorem nameError_notMem_mainSchedSteps : .nameError ∉ mainSchedSteps args := by
  rw [mainSchedSteps]
  split
  next =>
    cases args.saveCsv <;> cases args.savePng <;> simp
  next => simp

theorem nameError_mem_mainSteps_iff :
    .nameError ∈ mainSteps args ↔ args.fails = true := by
  simp only [mainSteps, List.mem_append, nameError_notMem_mainFreqSteps,
    nameError_notMem_mainIdleSteps, nameError_notMem_mainSchedSteps, false_or, or_false,
    nameError_mem_mainSaTrackSteps_iff]

theorem fails_eq_false (hcsv : args.saveCsv = false) (hpng : args.savePng = false) :
    args.fails = false := by
  simp [PpArgs.fails, PpArgs.failsOn, hcsv, hpng]

@[simp] theorem calls_append (first second : List PpStep) :
    calls (first ++ second) = calls first ++ calls second :=
  List.filterMap_append

theorem calls_flatMap {α : Type} (items : List α) (steps : α → List PpStep) :
    calls (items.flatMap steps) = items.flatMap fun item => calls (steps item) :=
  List.filterMap_flatMap

theorem calls_map_call (effects : List PpEffect) : calls (effects.map .call) = effects := by
  rw [calls, List.filterMap_map]
  exact List.filterMap_some

theorem isTui_of_tui {report : PpReport} {effect : PpEffect}
    (heffect : args.tui report = some effect) : effect.isTui = true := by
  obtain ⟨patterns, -, rfl⟩ := Option.map_eq_some_iff.mp heffect
  rfl

theorem filter_isTui_filterMap (reports : List PpReport) :
    (reports.filterMap args.tui).filter PpEffect.isTui = reports.filterMap args.tui := by
  apply List.filter_eq_self.mpr
  intro effect heffect
  obtain ⟨report, -, htui⟩ := List.mem_filterMap.mp heffect
  exact isTui_of_tui args htui

theorem filterMap_tui_eq_nil {reports : List PpReport} (hnone : ¬ args.asksAny reports = true) :
    reports.filterMap args.tui = [] := by
  apply List.filterMap_eq_nil_iff.mpr
  intro report hreport
  have hasks : ¬ args.asks report = true := fun hasks =>
    hnone (List.any_eq_true.mpr ⟨report, hreport, hasks⟩)
  rw [PpArgs.tui, Option.not_isSome_iff_eq_none.mp hasks]
  rfl

/-- Without a save option a module shows its reports. -/
theorem tui_moduleSteps (hcsv : args.saveCsv = false) (hpng : args.savePng = false)
    (module : PpModule) (onCsv : PpStep) (condition : List PpReport)
    (branches : List (PpReport × PpStep)) :
    (calls (moduleSteps args module onCsv condition branches)).filter PpEffect.isTui =
      if args.asksAny condition then (branches.map Prod.fst).filterMap args.tui else [] := by
  rw [moduleSteps, branchSteps_eq, hcsv, hpng]
  split
  next =>
    change ((PpEffect.init module :: calls _).filter PpEffect.isTui) = _
    simp only [Bool.false_eq_true, if_false, Bool.not_false, if_true, List.nil_append,
      calls_map_call]
    rw [List.filter_cons_of_neg Bool.false_ne_true, filter_isTui_filterMap]
  next => rfl

/-- The report that a step draws. -/
def PpStep.image? (step : PpStep) : Option PpReport :=
  step.effect?.bind PpEffect.image?

/-- The module whose table a step writes. -/
def PpStep.table? (step : PpStep) : Option PpModule :=
  step.effect?.bind PpEffect.table?

/-- The step is a report on the terminal. -/
def PpStep.isTui (step : PpStep) : Bool :=
  step.effect?.any PpEffect.isTui

theorem filterMap_image?_calls (steps : List PpStep) :
    (calls steps).filterMap PpEffect.image? = steps.filterMap PpStep.image? :=
  List.filterMap_filterMap

theorem filterMap_table?_calls (steps : List PpStep) :
    (calls steps).filterMap PpEffect.table? = steps.filterMap PpStep.table? :=
  List.filterMap_filterMap

/-- What is drawn for a report is the report. -/
def DrawsOwn (branches : List (PpReport × PpStep)) : Prop :=
  ∀ branch ∈ branches, ∀ report, branch.2.image? = some report → report = branch.1

theorem filterMap_image?_branches {branches : List (PpReport × PpStep)}
    (hown : DrawsOwn branches) :
    ((branches.filter fun branch => args.asks branch.1).map Prod.snd).filterMap PpStep.image? =
      (branches.filterMap fun branch => branch.2.image?).filter args.asks := by
  induction branches with
  | nil => rfl
  | cons branch rest ih =>
      obtain ⟨hfirst, hrest⟩ := List.forall_mem_cons.mp hown
      rw [List.filter_cons, List.filterMap_cons]
      cases himage : branch.2.image? with
      | none =>
          split
          · rw [List.map_cons, List.filterMap_cons_none himage, ih hrest]
          · exact ih hrest
      | some report =>
          obtain rfl := hfirst report himage
          rw [List.filter_cons]
          split
          · rw [List.map_cons, List.filterMap_cons_some himage, ih hrest]
          · exact ih hrest

/-- What is shown on the terminal is neither drawn nor written. -/
theorem filterMap_map_call_tui (reports : List PpReport) :
    ((reports.filterMap args.tui).map PpStep.call).filterMap PpStep.image? = [] ∧
      ((reports.filterMap args.tui).map PpStep.call).filterMap PpStep.table? = [] := by
  have hnone : ∀ step ∈ (reports.filterMap args.tui).map PpStep.call,
      step.image? = none ∧ step.table? = none := by
    intro step hstep
    obtain ⟨effect, heffect, rfl⟩ := List.mem_map.mp hstep
    obtain ⟨report, -, htui⟩ := List.mem_filterMap.mp heffect
    obtain ⟨patterns, -, rfl⟩ := Option.map_eq_some_iff.mp htui
    exact ⟨rfl, rfl⟩
  exact ⟨List.filterMap_eq_nil_iff.mpr fun step hstep => (hnone step hstep).1,
    List.filterMap_eq_nil_iff.mpr fun step hstep => (hnone step hstep).2⟩

/-- With `--save-png` a module draws the reports that can be drawn. -/
theorem images_moduleSteps {module : PpModule} {onCsv : PpStep} {condition : List PpReport}
    {branches : List (PpReport × PpStep)} (hcsv : onCsv.image? = none) (hown : DrawsOwn branches)
    (hall : branches.map Prod.fst = condition) :
    (moduleSteps args module onCsv condition branches).filterMap PpStep.image? =
      if args.savePng then (branches.filterMap fun branch => branch.2.image?).filter args.asks
      else [] := by
  have hcsvNone : (if args.saveCsv = true then [onCsv] else []).filterMap PpStep.image? = [] := by
    split
    · rw [List.filterMap_cons_none hcsv, List.filterMap_nil]
    · rfl
  rw [moduleSteps, branchSteps_eq]
  split
  next =>
    rw [List.filterMap_cons_none rfl, List.filterMap_append, hcsvNone, List.nil_append]
    split
    · exact filterMap_image?_branches args hown
    · split
      · exact (filterMap_map_call_tui args _).1
      · rfl
  next hnone =>
    split
    · symm
      apply List.filter_eq_nil_iff.mpr
      intro report hreport hasks
      obtain ⟨branch, hbranch, himage⟩ := List.mem_filterMap.mp hreport
      obtain rfl := hown branch hbranch report himage
      exact hnone (List.any_eq_true.mpr ⟨_, hall ▸ List.mem_map_of_mem hbranch, hasks⟩)
    · rfl

/-- With `--save-csv` a module writes its table. -/
theorem tables_moduleSteps {module : PpModule} {onCsv : PpStep} {condition : List PpReport}
    {branches : List (PpReport × PpStep)}
    (hbranches : ∀ branch ∈ branches, branch.2.table? = none) :
    (moduleSteps args module onCsv condition branches).filterMap PpStep.table? =
      if args.asksAny condition then
        (if args.saveCsv then [onCsv] else []).filterMap PpStep.table?
      else [] := by
  rw [moduleSteps]
  split
  next =>
    rw [List.filterMap_cons_none rfl, List.filterMap_append]
    apply List.append_right_eq_self.mpr
    apply List.filterMap_eq_nil_iff.mpr
    intro step hstep
    rcases mem_branchSteps_iff.mp hstep with
      ⟨-, branch, hbranch, -, rfl⟩ | ⟨-, -, branch, -, effect, htui, rfl⟩
    · exact hbranches branch hbranch
    · obtain ⟨patterns, -, rfl⟩ := Option.map_eq_some_iff.mp htui
      rfl
  next => rfl

/-- The reports of the signals on the terminal. -/
theorem tui_mainSaTrackSteps (hcsv : args.saveCsv = false) (hpng : args.savePng = false) :
    (calls (mainSaTrackSteps args)).filter PpEffect.isTui =
      ((ppSignals.flatMap fun signal =>
          trackReports signal false ++ trackReports signal true).filter
        args.reaches).filterMap args.tui := by
  have hsignal : ∀ signal running,
      (calls (trackSteps args signal running)).filter PpEffect.isTui =
        ((trackReports signal running).filter args.reaches).filterMap args.tui := by
    intro signal running
    rw [trackSteps, tui_moduleSteps args hcsv hpng]
    split
    next hasked =>
      congr 1
      symm
      apply List.filter_eq_self.mpr
      intro report hreport
      obtain ⟨kind, -, rfl⟩ := List.mem_map.mp hreport
      exact hasked
    next hnot =>
      have hnone : (trackReports signal running).filter args.reaches = [] := by
        apply List.filter_eq_nil_iff.mpr
        intro report hreport
        obtain ⟨kind, -, rfl⟩ := List.mem_map.mp hreport
        exact hnot
      rw [hnone, List.filterMap_nil]
  rw [mainSaTrackSteps, calls_flatMap, List.filter_flatMap, List.filter_flatMap,
    List.filterMap_flatMap]
  apply List.flatMap_congr
  intro signal _
  rw [processSaTrackOption_eq, calls_append, List.filter_append, hsignal, hsignal,
    List.filter_append, List.filterMap_append]

theorem done_mainSteps (args : PpArgs) :
    done (mainSteps args) = calls (mainFreqSteps args) ++ (calls (mainIdleSteps args) ++
      (done (mainSaTrackSteps args) ++
        if args.fails then [] else calls (mainSchedSteps args))) := by
  rw [mainSteps, done_append, if_neg (nameError_notMem_mainFreqSteps args), done_append,
    if_neg (nameError_notMem_mainIdleSteps args), done_append,
    done_eq_calls (nameError_notMem_mainFreqSteps args),
    done_eq_calls (nameError_notMem_mainIdleSteps args),
    done_eq_calls (nameError_notMem_mainSchedSteps args)]
  simp only [nameError_mem_mainSaTrackSteps_iff]

/-- With a save option a module leaves the terminal alone. -/
theorem tui_notMem_moduleSteps (hsaves : (args.saveCsv || args.savePng) = true)
    {module : PpModule} {onCsv : PpStep} {condition : List PpReport}
    {branches : List (PpReport × PpStep)} (hcsv : onCsv.isTui = false)
    (hpng : ∀ branch ∈ branches, branch.2.isTui = false) {effect : PpEffect}
    (heffect : effect.isTui = true) :
    .call effect ∉ moduleSteps args module onCsv condition branches := by
  intro hmem
  have htui : (PpStep.call effect).isTui = true := heffect
  obtain ⟨-, hinit | ⟨-, hwrite⟩ | ⟨-, branch, hbranch, -, hdraw⟩ | ⟨hnoPng, hnoCsv, -⟩⟩ :=
    mem_moduleSteps_iff.mp hmem
  · rw [PpStep.call.inj hinit] at heffect
    exact Bool.noConfusion heffect
  · rw [hwrite, hcsv] at htui
    exact Bool.noConfusion htui
  · rw [hdraw, hpng branch hbranch] at htui
    exact Bool.noConfusion htui
  · rw [hnoPng, hnoCsv] at hsaves
    exact Bool.noConfusion hsaves

/-- What is done for the states with a save option. -/
theorem mainSchedSteps_of_saves (hsaves : (args.saveCsv || args.savePng) = true) :
    mainSchedSteps args =
      if args.asksAny schedReports then
        .call (.init .sched) ::
          ((if args.saveCsv then [.call (.saveCsv .sched)] else []) ++
            if args.savePng then [.call (.notImplemented "sched-*")] else [])
      else [] := by
  have hflag : ¬ (!args.saveCsv && !args.savePng) = true := by
    rw [← Bool.not_or, hsaves]
    exact Bool.false_ne_true
  rw [mainSchedSteps, if_neg hflag, List.append_nil]

theorem tui_notMem_mainSchedSteps (hsaves : (args.saveCsv || args.savePng) = true)
    {effect : PpEffect} (heffect : effect.isTui = true) : .call effect ∉ mainSchedSteps args := by
  rw [mainSchedSteps_of_saves args hsaves]
  intro hmem
  split at hmem
  next =>
    rcases List.mem_cons.mp hmem with hinit | hrest
    · obtain rfl := PpStep.call.inj hinit
      exact Bool.noConfusion heffect
    · rcases List.mem_append.mp hrest with hcsv | hpng
      · split at hcsv
        · obtain rfl := PpStep.call.inj (List.mem_singleton.mp hcsv)
          exact Bool.noConfusion heffect
        · exact List.not_mem_nil hcsv
      · split at hpng
        · obtain rfl := PpStep.call.inj (List.mem_singleton.mp hpng)
          exact Bool.noConfusion heffect
        · exact List.not_mem_nil hpng
  next => exact List.not_mem_nil hmem

theorem filter_isTui_of_saves (hsaves : (args.saveCsv || args.savePng) = true) :
    (done (mainSteps args)).filter PpEffect.isTui = [] := by
  apply List.filter_eq_nil_iff.mpr
  intro effect heffect htui
  have hmem := call_mem_of_mem_done heffect
  simp only [mainSteps, List.mem_append, mem_mainSaTrackSteps_iff] at hmem
  have htrack : ∀ signal running, .call effect ∉ trackSteps args signal running := by
    intro signal running
    apply tui_notMem_moduleSteps args hsaves rfl _ htui
    simp [PpStep.isTui, PpStep.effect?, PpEffect.isTui]
  rcases hmem with hfreq | hidle | ⟨signal, -, hfalse | htrue⟩ | hsched
  · revert hfreq
    apply tui_notMem_moduleSteps args hsaves rfl _ htui
    simp [PpStep.isTui, PpStep.effect?, PpEffect.isTui]
  · revert hidle
    apply tui_notMem_moduleSteps args hsaves rfl _ htui
    simp [PpStep.isTui, PpStep.effect?, PpEffect.isTui]
  · exact htrack signal false hfalse
  · exact htrack signal true htrue
  · exact tui_notMem_mainSchedSteps args hsaves htui hsched

/-- The signals draw no image and write no table. -/
theorem filterMap_done_mainSaTrackSteps :
    (done (mainSaTrackSteps args)).filterMap PpEffect.image? = [] ∧
      (done (mainSaTrackSteps args)).filterMap PpEffect.table? = [] := by
  have hnone : ∀ effect ∈ done (mainSaTrackSteps args),
      effect.image? = none ∧ effect.table? = none := by
    intro effect heffect
    obtain ⟨signal, -, hstep⟩ := (mem_mainSaTrackSteps_iff args).mp (call_mem_of_mem_done heffect)
    have hmodule : ∀ running, .call effect ∈ trackSteps args signal running →
        effect.image? = none ∧ effect.table? = none := by
      intro running hmem
      rw [trackSteps, mem_moduleSteps_iff] at hmem
      obtain ⟨-, hinit | ⟨-, hcsv⟩ | ⟨-, branch, hbranch, -, hpng⟩ |
        ⟨-, -, branch, -, shown, htui, hsame⟩⟩ := hmem
      · obtain rfl := PpStep.call.inj hinit
        exact ⟨rfl, rfl⟩
      · exact PpStep.noConfusion hcsv
      · simp only [List.mem_cons, List.not_mem_nil, or_false] at hbranch
        rcases hbranch with rfl | rfl | rfl | rfl
        · exact PpStep.noConfusion hpng
        · exact PpStep.noConfusion hpng
        · obtain rfl := PpStep.call.inj hpng
          exact ⟨rfl, rfl⟩
        · obtain rfl := PpStep.call.inj hpng
          exact ⟨rfl, rfl⟩
      · obtain rfl := PpStep.call.inj hsame
        obtain ⟨patterns, -, rfl⟩ := Option.map_eq_some_iff.mp htui
        exact ⟨rfl, rfl⟩
    exact hstep.elim (hmodule false) (hmodule true)
  exact ⟨List.filterMap_eq_nil_iff.mpr fun effect heffect => (hnone effect heffect).1,
    List.filterMap_eq_nil_iff.mpr fun effect heffect => (hnone effect heffect).2⟩

/-- The states are shown, or their table is written. -/
theorem filterMap_mainSchedSteps :
    (mainSchedSteps args).filterMap PpStep.image? = [] ∧
      (mainSchedSteps args).filterMap PpStep.table? =
        if args.saveCsv && args.asksAny schedReports then [.sched] else [] := by
  have htui : ((schedReports.filterMap args.tui).map PpStep.call).filterMap PpStep.image? = [] ∧
      ((schedReports.filterMap args.tui).map PpStep.call).filterMap PpStep.table? = [] :=
    filterMap_map_call_tui args schedReports
  rw [mainSchedSteps]
  cases args.asksAny schedReports <;> cases args.saveCsv <;> cases args.savePng
  all_goals first
    | exact ⟨rfl, rfl⟩
    | exact htui

theorem filter_isTui_main (hcsv : args.saveCsv = false) (hpng : args.savePng = false) :
    (done (mainSteps args)).filter PpEffect.isTui =
      (reportOrder.filter args.reaches).filterMap args.tui := by
  have hall : ∀ reports : List PpReport,
      (if args.asksAny reports then reports.filterMap args.tui else []) =
        reports.filterMap args.tui := by
    intro reports
    split
    next => rfl
    next hnone => exact (filterMap_tui_eq_nil args hnone).symm
  have hsched : (calls (mainSchedSteps args)).filter PpEffect.isTui =
      schedReports.filterMap args.tui := by
    rw [mainSchedSteps, hcsv, hpng, ← hall]
    split
    next =>
      simp only [Bool.false_eq_true, if_false, Bool.not_false, Bool.and_self, if_true,
        List.nil_append]
      change ((PpEffect.init .sched :: calls _).filter PpEffect.isTui) = _
      rw [List.filter_cons_of_neg Bool.false_ne_true, calls_map_call, filter_isTui_filterMap]
    next => rfl
  have hfreq : (calls (mainFreqSteps args)).filter PpEffect.isTui =
      freqReports.filterMap args.tui :=
    (tui_moduleSteps args hcsv hpng _ _ _ _).trans (hall freqReports)
  have hidle : (calls (mainIdleSteps args)).filter PpEffect.isTui =
      idleReports.filterMap args.tui :=
    (tui_moduleSteps args hcsv hpng _ _ _ _).trans (hall idleReports)
  have hno : .nameError ∉ mainSaTrackSteps args := by
    rw [nameError_mem_mainSaTrackSteps_iff, fails_eq_false args hcsv hpng]
    exact Bool.false_ne_true
  rw [done_mainSteps, fails_eq_false args hcsv hpng, if_neg Bool.false_ne_true,
    done_eq_calls hno]
  simp only [List.filter_append, List.filterMap_append, hfreq, hidle, hsched,
    tui_mainSaTrackSteps args hcsv hpng, reportOrder]
  rfl

/-- What the frequency draws, and its table. -/
theorem filterMap_mainFreqSteps :
    (mainFreqSteps args).filterMap PpStep.image? =
        (if args.savePng then
          [.freq, .freqResidency, .freqResidencyAbs].filter args.asks else []) ∧
      (mainFreqSteps args).filterMap PpStep.table? =
        if args.saveCsv && args.asksAny freqReports then [.freq] else [] := by
  constructor
  · rw [mainFreqSteps, images_moduleSteps args]
    · rfl
    · rfl
    · simp [DrawsOwn, PpStep.image?, PpStep.effect?, PpEffect.image?]
    · rfl
  · rw [mainFreqSteps, tables_moduleSteps args
      (by simp [PpStep.table?, PpStep.effect?, PpEffect.table?])]
    cases args.asksAny freqReports <;> cases args.saveCsv <;> rfl

theorem filterMap_mainIdleSteps :
    (mainIdleSteps args).filterMap PpStep.image? =
        (if args.savePng then [.idleResidency, .idleResidencyAbs].filter args.asks else []) ∧
      (mainIdleSteps args).filterMap PpStep.table? =
        if args.saveCsv && args.asksAny idleReports then [.idle] else [] := by
  constructor
  · rw [mainIdleSteps, images_moduleSteps args]
    · rfl
    · rfl
    · simp [DrawsOwn, PpStep.image?, PpStep.effect?, PpEffect.image?]
    · rfl
  · rw [mainIdleSteps, tables_moduleSteps args
      (by simp [PpStep.table?, PpStep.effect?, PpEffect.table?])]
    cases args.asksAny idleReports <;> cases args.saveCsv <;> rfl

theorem filterMap_image?_main :
    (done (mainSteps args)).filterMap PpEffect.image? =
      if args.savePng then imageReports.filter args.asks else [] := by
  have hsched : (if args.fails then [] else calls (mainSchedSteps args)).filterMap
      PpEffect.image? = [] := by
    split
    · rfl
    · rw [filterMap_image?_calls, (filterMap_mainSchedSteps args).1]
  simp only [done_mainSteps, List.filterMap_append, filterMap_image?_calls,
    (filterMap_mainFreqSteps args).1, (filterMap_mainIdleSteps args).1,
    (filterMap_done_mainSaTrackSteps args).1, hsched, List.append_nil]
  split
  · exact (List.filter_append _ _).symm
  · rfl

theorem filterMap_table?_main :
    (done (mainSteps args)).filterMap PpEffect.table? =
      if args.saveCsv then
        (if args.asksAny freqReports then [.freq] else []) ++
          ((if args.asksAny idleReports then [.idle] else []) ++
            if args.asksAny schedReports && !args.fails then [.sched] else [])
      else [] := by
  have hsched : (if args.fails then [] else calls (mainSchedSteps args)).filterMap PpEffect.table? =
      if args.saveCsv && (args.asksAny schedReports && !args.fails) then [.sched] else [] := by
    split
    next hfails => simp [hfails]
    next hnot => simp [filterMap_table?_calls, (filterMap_mainSchedSteps args).2, hnot]
  simp only [done_mainSteps, List.filterMap_append, filterMap_table?_calls,
    (filterMap_mainFreqSteps args).2, (filterMap_mainIdleSteps args).2,
    (filterMap_done_mainSaTrackSteps args).2, hsched, List.nil_append]
  cases args.saveCsv <;> simp

theorem filter_isTui_done :
    (done (mainSteps args)).filter PpEffect.isTui =
      if args.saveCsv || args.savePng then []
      else (reportOrder.filter args.reaches).filterMap args.tui := by
  split
  next hsaves => exact filter_isTui_of_saves args hsaves
  next hnot =>
    obtain ⟨hcsv, hpng⟩ := Bool.or_eq_false_iff.mp (Bool.eq_false_iff.mpr hnot)
    exact filter_isTui_main args hcsv hpng

/-- A report is shown with its own arguments. -/
theorem tui_of_mem_done {report : PpReport} {patterns : List String} {multiply : Bool}
    (hshown : .tui report patterns multiply ∈ done (mainSteps args)) :
    multiply = report.multiply := by
  have htui := List.mem_filter.mpr ⟨hshown, show PpEffect.isTui _ = true from rfl⟩
  rw [filter_isTui_done] at htui
  split at htui
  next => exact absurd htui List.not_mem_nil
  next =>
    obtain ⟨asked, -, hasked⟩ := List.mem_filterMap.mp htui
    obtain ⟨_, -, hsame⟩ := Option.map_eq_some_iff.mp hasked
    obtain ⟨rfl, -, rfl⟩ := PpEffect.tui.inj hsame
    rfl

theorem mainSteps_doesAsAsked : DoesAsAsked args where
  tui := filter_isTui_done args
  images := filterMap_image?_main args
  tables := filterMap_table?_main args
  fails := by rw [Bool.eq_iff_iff, raised_iff, nameError_mem_mainSteps_iff]
  multiplied hshown := (tui_of_mem_done args hshown).trans (multiplyRunning_eq _ _)
  raises raises := perform_isPrefix raises (mainSteps args)

end Main

/-- Reports of a module each, one of them for the running time of a signal. -/
def someReports : PpArgs :=
  .ofOptions false false [(.freq, none), (.saTrack .cpuNrRunning false .plot, some "CPU"),
    (.saTrack .utilAvg true .hist, some "surfaceflinger"), (.schedStates, some "init"),
    (.saTrack .utilAvg true .hist, some "sh")]

/-- They come in the order of `main`, and the number of tasks is taken for a running time. -/
example : done (mainSteps someReports) =
    [.init .freq, .tui .freq [] false,
      .init (.saTrack .utilAvg),
      .tui (.saTrack .utilAvg true .hist) ["surfaceflinger", "sh"] true,
      .init (.saTrack .cpuNrRunning), .tui (.saTrack .cpuNrRunning false .plot) ["CPU"] true,
      .init .sched, .tui .schedStates ["init"] false] := by
  decide

theorem mainSteps_doesAsAsked_someReports : DoesAsAsked someReports :=
  mainSteps_doesAsAsked someReports

/-- A table of a signal that is asked for is not written, and the run ends there. -/
example : perform (fun _ => false) (mainSteps (.ofOptions true false
    [(.idleResidency, none), (.saTrack .utilAvg false .plot, some "CPU"),
      (.schedReport, none)])) =
    ([.init .idle, .saveCsv .idle, .init (.saTrack .utilAvg)], true) := by
  decide

end SchedAnalyzer
