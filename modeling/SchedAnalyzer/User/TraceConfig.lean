import SchedAnalyzer.User.CollectedArguments
import SchedAnalyzer.User.NumericOptions

/-! # The configuration of the trace

`init_perfetto` and `start_perfetto_trace` read the options once, after the command line
is parsed. An option that is stored to a flag or a path overwrites what was there, so
the last one counts.
-/

namespace SchedAnalyzer

open Foundation.CString Foundation.Lists

/-! ## The configuration -/

/-- `perfetto::BackendType`. -/
inductive Backend
  | inProcess
  | system
  deriving DecidableEq, Repr

/-- The backends that `init_perfetto()` selects. -/
def initBackends (opts : SaOpts) : List Backend :=
  (if opts.app then [.inProcess] else []) ++ if opts.system then [.system] else []

/-- The function graph part of `FtraceConfig`. -/
structure FunctionGraphConfig where
  symbolizeKsyms : Bool
  ksymsRetain : Bool
  roots : List (List Char)
  filters : List (List Char)
  deriving DecidableEq

/-- `FtraceConfig`. -/
structure FtraceConfig where
  ftraceEvents : List (List Char)
  atraceCategories : List (List Char)
  functionGraph : Option FunctionGraphConfig
  drainPeriodMs : ℕ
  deriving DecidableEq

/-- A data source with its configuration. -/
inductive DataSource
  | trackEvent (enabledCategories : List (List Char))
  | frametimeline
  | ftrace (config : FtraceConfig)
  | processStats (pollMs : ℕ) (recordThreadNames : Bool)
  deriving DecidableEq

/-- A ring buffer of the trace. -/
structure BufferConfig where
  sizeKb : ℕ
  ringBuffer : Bool
  deriving DecidableEq

/-- `perfetto::TraceConfig`. -/
structure TraceConfig where
  buffers : List BufferConfig
  durationMs : ℕ
  maxFileSizeBytes : UInt64
  uniqueSessionName : List Char
  writeIntoFile : Bool
  fileWritePeriodMs : ℕ
  flushPeriodMs : ℕ
  enableExtraGuardrails : Bool
  notifyTraceur : Bool
  clearPeriodMs : ℕ
  dataSources : List DataSource
  deriving DecidableEq

/-- The events that are traced without an option. -/
def defaultFtraceEvents : List (List Char) :=
  ["sched/sched_switch", "sched/sched_wakeup_new", "sched/sched_waking",
    "sched/sched_process_exit", "sched/sched_process_free", "power/suspend_resume",
    "power/cpu_frequency", "power/cpu_idle", "task/task_newtask", "task/task_rename",
    "ftrace/print"].map String.toList

/-- The ftrace data source of `start_perfetto_trace()`. -/
def ftraceConfig (opts : SaOpts) : FtraceConfig where
  ftraceEvents := defaultFtraceEvents ++ opts.ftraceEvent
  atraceCategories := (if opts.irq then ["irq".toList] else []) ++ opts.atraceCat
  functionGraph :=
    if opts.functionGraph.length ≠ 0 ∨ opts.functionFilter.length ≠ 0 then
      some ⟨true, true, opts.functionGraph, opts.functionFilter⟩
    else none
  drainPeriodMs := 1000

/-- The configuration of `start_perfetto_trace()`. -/
def traceConfig (opts : SaOpts) : TraceConfig where
  buffers := [⟨1024 * 100, true⟩, ⟨1024 * 100, true⟩]
  durationMs := 3600000
  maxFileSizeBytes := opts.maxFileSizeBytes
  uniqueSessionName := "sched-analyzer".toList
  writeIntoFile := true
  fileWritePeriodMs := 1000
  flushPeriodMs := 30000
  enableExtraGuardrails := false
  notifyTraceur := true
  clearPeriodMs := 15000
  dataSources :=
    [.trackEvent ["sched-analyzer".toList], .frametimeline, .ftrace (ftraceConfig opts),
      .processStats 10000 true]

/-- `android_traces_path`. -/
def androidTracesPath : List Char :=
  "/data/misc/perfetto-traces".toList

/-- The path that `start_perfetto_trace()` leaves in `sa_opts`, given whether the
directory of Android is there. -/
def outputPathOf (android : Bool) (opts : SaOpts) : List Char :=
  opts.outputPath.getD (if android then androidTracesPath else ".".toList)

/-- The path that is opened. -/
def openedFile (android : Bool) (opts : SaOpts) : List Char :=
  snprintf 256 (outputPathOf android opts ++ '/' :: opts.output)

/-- The path that `main` prints at the end. -/
def collectedFile (android : Bool) (opts : SaOpts) : List Char :=
  outputPathOf android opts ++ '/' :: opts.output

/-! ## The last option of a kind -/

section Fields

variable {α : Type}

/-- What the options of a line write to a field, in order. -/
def writes (written : OptKey → List Char → List α) (line : CommandLine) : List α :=
  line.flatMap fun (key, arg) => written key arg

/-- A field that options overwrite. -/
structure Overwrites (field : SaOpts → α) (written : OptKey → List Char → List α) : Prop where
  step : ∀ {opts next : SaOpts} {key : OptKey} {arg message : List Char},
    parseArg opts key arg = .accepted next message →
      field next = (written key arg).getLast?.getD (field opts)

theorem accepted_of_after {result : ParseResult} {before message : List Char} {final : SaOpts}
    (hresult : result.after before = .accepted final message) :
    ∃ rest, result = .accepted final rest := by
  cases result with
  | accepted opts rest =>
      obtain ⟨rfl, -⟩ := ParseResult.accepted.inj hresult
      exact ⟨rest, rfl⟩
  | rejected opts error rest => exact ParseResult.noConfusion hresult
  | outOfBounds => exact ParseResult.noConfusion hresult

/-- An accepted line leaves what its last option wrote. -/
theorem Overwrites.field_eq {field : SaOpts → α} {written : OptKey → List Char → List α}
    (hfield : Overwrites field written) {line : CommandLine} {opts final : SaOpts}
    {message : List Char} (hline : parseCommandLine opts line = .accepted final message) :
    field final = (writes written line).getLast?.getD (field opts) := by
  induction line generalizing opts message with
  | nil =>
      obtain ⟨rfl, -⟩ := ParseResult.accepted.inj hline
      rfl
  | cons option rest ih =>
      obtain ⟨key, arg⟩ := option
      rw [parseCommandLine] at hline
      cases hstep : parseArg opts key arg with
      | rejected left error text =>
          simp only [hstep] at hline
          exact ParseResult.noConfusion hline
      | outOfBounds =>
          simp only [hstep] at hline
          exact ParseResult.noConfusion hline
      | accepted next text =>
          simp only [hstep] at hline
          obtain ⟨text', hrest⟩ := accepted_of_after hline
          have hcons : writes written ((key, arg) :: rest) =
              written key arg ++ writes written rest := rfl
          rw [ih hrest, hfield.step hstep, hcons, List.getLast?_append]
          cases (writes written rest).getLast? <;> rfl

end Fields

/-! ## What an option writes -/

/-- The flags and paths of the configuration. -/
structure TraceSettings where
  system : Bool
  app : Bool
  output : List Char
  outputPath : Option (List Char)
  maxSize : Int64
  irq : Bool

def SaOpts.traceSettings (opts : SaOpts) : TraceSettings :=
  ⟨opts.system, opts.app, opts.output, opts.outputPath, opts.maxSize, opts.irq⟩

/-- The size that a `--max_size` stores. -/
def mebibytes (arg : List Char) : Int64 :=
  Int64.ofInt (strtol 0 arg).value * 1024 * 1024

def TraceSettings.write (settings : TraceSettings) (key : OptKey) (arg : List Char) :
    TraceSettings :=
  match key with
  | .system => { settings with system := true, app := false }
  | .app => { settings with system := false, app := true }
  | .output => { settings with output := arg }
  | .outputPath => { settings with outputPath := some arg }
  | .maxSize => { settings with maxSize := mebibytes arg }
  | .irq => { settings with irq := true }
  | _ => settings

theorem storeUnchecked_eq_accepted {array : List (List Char)} {arg message : List Char}
    {set : List (List Char) → SaOpts} {next : SaOpts}
    (haccepted : storeUnchecked array arg set = .accepted next message) :
    next = set (array ++ [arg]) := by
  rw [storeUnchecked] at haccepted
  split at haccepted
  next => exact (ParseResult.accepted.inj haccepted).1.symm
  next => exact ParseResult.noConfusion haccepted

/-- An accepted option writes to its own setting. -/
theorem traceSettings_of_parseArg {opts next : SaOpts} {key : OptKey} {arg message : List Char}
    (haccepted : parseArg opts key arg = .accepted next message) :
    next.traceSettings = opts.traceSettings.write key arg := by
  cases key
  case maxSize =>
    simp only [parseArg, parseMaxSize] at haccepted
    split at haccepted
    next => exact ParseResult.noConfusion haccepted
    next =>
      split at haccepted
      next => exact ParseResult.noConfusion haccepted
      next =>
        obtain ⟨rfl, -⟩ := ParseResult.accepted.inj haccepted
        rfl
  case filterPid =>
    simp only [parseArg, parseFilterPid] at haccepted
    split at haccepted
    next =>
      obtain ⟨rfl, -⟩ := ParseResult.accepted.inj haccepted
      rfl
    next =>
      split at haccepted
      next => exact ParseResult.noConfusion haccepted
      next =>
        split at haccepted
        next => exact ParseResult.noConfusion haccepted
        next =>
          obtain ⟨rfl, -⟩ := ParseResult.accepted.inj haccepted
          rfl
  case filterComm =>
    simp only [parseArg, parseFilterComm] at haccepted
    split at haccepted
    all_goals
      obtain ⟨rfl, -⟩ := ParseResult.accepted.inj haccepted
      rfl
  case ftraceEvent | atraceCat | functionGraph | functionFilter =>
    rw [parseArg] at haccepted
    rw [storeUnchecked_eq_accepted haccepted]
    rfl
  case argpKeyArg => exact ParseResult.noConfusion haccepted
  case unknown => exact ParseResult.noConfusion haccepted
  -- All others are accepted as they come.
  all_goals
    obtain ⟨rfl, -⟩ := ParseResult.accepted.inj haccepted
    rfl

/-- The backend that `--system` and `--app` select. -/
def backendOf : OptKey → List Backend
  | .system => [.system]
  | .app => [.inProcess]
  | _ => []

theorem overwrites_outputPath :
    Overwrites SaOpts.outputPath fun key arg => (argFor .outputPath key arg).map some where
  step {opts next key arg message} haccepted := by
    have hwrite := congrArg TraceSettings.outputPath (traceSettings_of_parseArg haccepted)
    exact hwrite.trans (by cases key <;> rfl)

theorem overwrites_output : Overwrites SaOpts.output (argFor .output) where
  step {opts next key arg message} haccepted := by
    have hwrite := congrArg TraceSettings.output (traceSettings_of_parseArg haccepted)
    exact hwrite.trans (by cases key <;> rfl)

theorem overwrites_maxSize :
    Overwrites SaOpts.maxSize fun key arg => (argFor .maxSize key arg).map mebibytes where
  step {opts next key arg message} haccepted := by
    have hwrite := congrArg TraceSettings.maxSize (traceSettings_of_parseArg haccepted)
    exact hwrite.trans (by cases key <;> rfl)

theorem overwrites_irq :
    Overwrites SaOpts.irq fun key arg => (argFor .irq key arg).map fun _ => true where
  step {opts next key arg message} haccepted := by
    have hwrite := congrArg TraceSettings.irq (traceSettings_of_parseArg haccepted)
    exact hwrite.trans (by cases key <;> rfl)

/-- `--system` and `--app` replace each other. -/
theorem overwrites_initBackends :
    Overwrites initBackends fun key _ => (backendOf key).map fun backend => [backend] where
  step {opts next key arg message} haccepted := by
    have hsettings := traceSettings_of_parseArg haccepted
    have hsystem : next.system = (opts.traceSettings.write key arg).system :=
      congrArg TraceSettings.system hsettings
    have happ : next.app = (opts.traceSettings.write key arg).app :=
      congrArg TraceSettings.app hsettings
    rw [initBackends, hsystem, happ]
    cases key <;> rfl

theorem writes_map {α β : Type} (written : OptKey → List Char → List α) (f : α → β)
    (line : CommandLine) :
    writes (fun key arg => (written key arg).map f) line = (writes written line).map f :=
  List.map_flatMap.symm

theorem writes_argFor (wanted : OptKey) (line : CommandLine) :
    writes (argFor wanted) line = argsOf wanted line := rfl

/-! ## The configuration of a command line -/

theorem collected_of_accepted {line : CommandLine} {opts : SaOpts} {message : List Char}
    (hline : parseCommandLine .initial line = .accepted opts message) : Collected line opts := by
  have hrun := runsLine line collected_initial
  rw [hline] at hrun
  cases hrun with
  | accepted hall hcollected => exact hcollected

/-- The path of the trace: the last arguments of `--output_path` and `--output`. -/
def traceFile (android : Bool) (line : CommandLine) : List Char :=
  (argsOf .outputPath line).getLast?.getD (if android then androidTracesPath else ".".toList) ++
    '/' :: (argsOf .output line).getLast?.getD "sched-analyzer.perfetto-trace".toList

/-- The trace is recorded as the command line asks. -/
structure ConfiguredBy (line : CommandLine) (opts : SaOpts) : Prop where
  backends : initBackends opts = [(writes (fun key _ => backendOf key) line).getLast?.getD .system]
  ftraceEvents : (ftraceConfig opts).ftraceEvents =
    defaultFtraceEvents ++ argsOf .ftraceEvent line
  atraceCategories : (ftraceConfig opts).atraceCategories =
    (if argsOf .irq line = [] then [] else ["irq".toList]) ++ argsOf .atraceCat line
  functionGraph : (ftraceConfig opts).functionGraph =
    if argsOf .functionGraph line = [] ∧ argsOf .functionFilter line = [] then none
    else some ⟨true, true, argsOf .functionGraph line, argsOf .functionFilter line⟩
  defaultSize : argsOf .maxSize line = [] →
    (traceConfig opts).maxFileSizeBytes.toNat = 250 * 2 ^ 20
  /-- The size of the last `--max_size` that does not overflow. -/
  size : ∀ arg ∈ (argsOf .maxSize line).getLast?, ∀ mebibytes : ℕ,
    (strtol 0 arg).value = mebibytes → mebibytes < 2 ^ 43 →
      (traceConfig opts).maxFileSizeBytes.toNat = mebibytes * 2 ^ 20
  opened : ∀ android, openedFile android opts = (traceFile android line).take 255
  /-- The path that is printed is the one that was opened, unless that was cut. -/
  collected : ∀ android, collectedFile android opts = openedFile android opts ↔
    (traceFile android line).length ≤ 255

/-- What an accepted command line asks for is recorded: all that is collected, and of what
is overwritten the last. -/
theorem configuredBy_line {line : CommandLine} {opts : SaOpts} {message : List Char}
    (hline : parseCommandLine .initial line = .accepted opts message) :
    ConfiguredBy line opts := by
  have hcollected := collected_of_accepted hline
  have houtputPath : opts.outputPath = (argsOf .outputPath line).getLast? := by
    rw [overwrites_outputPath.field_eq hline, writes_map, writes_argFor, List.getLast?_map]
    cases (argsOf .outputPath line).getLast? <;> rfl
  have houtput : opts.output =
      (argsOf .output line).getLast?.getD "sched-analyzer.perfetto-trace".toList :=
    overwrites_output.field_eq hline
  have hmaxSize := overwrites_maxSize.field_eq hline
  rw [writes_map, writes_argFor, List.getLast?_map] at hmaxSize
  have hirq := overwrites_irq.field_eq hline
  rw [writes_map, writes_argFor, List.getLast?_map] at hirq
  have hfile : ∀ android, outputPathOf android opts ++ '/' :: opts.output =
      traceFile android line := by
    intro android
    rw [outputPathOf, houtputPath, houtput, traceFile]
  have hopened : ∀ android, openedFile android opts = (traceFile android line).take 255 := by
    intro android
    rw [openedFile, hfile, snprintf]
  refine ⟨?_, ?_, ?_, ?_, ?_, ?_, hopened, ?_⟩
  · rw [overwrites_initBackends.field_eq hline, writes_map, List.getLast?_map]
    cases (writes (fun key _ => backendOf key) line).getLast? <;> rfl
  · exact congrArg (defaultFtraceEvents ++ ·) (hcollected.unchecked .ftraceEvent)
  · have hcategories : opts.atraceCat = argsOf .atraceCat line := hcollected.unchecked .atraceCat
    have hflag : opts.irq = true ↔ ¬ argsOf .irq line = [] := by
      rw [hirq, ← List.getLast?_eq_none_iff]
      cases (argsOf .irq line).getLast? <;> simp [SaOpts.initial]
    rw [ftraceConfig, hcategories]
    by_cases hnone : argsOf .irq line = []
    · have hoff : ¬ opts.irq = true := fun hon => hflag.mp hon hnone
      simp only [if_pos hnone, if_neg hoff]
    · simp only [if_neg hnone, if_pos (hflag.mpr hnone)]
  · have hroots : opts.functionGraph = argsOf .functionGraph line :=
      hcollected.unchecked .functionGraph
    have hfilters : opts.functionFilter = argsOf .functionFilter line :=
      hcollected.unchecked .functionFilter
    rw [ftraceConfig, hroots, hfilters]
    by_cases hnone : argsOf .functionGraph line = [] ∧ argsOf .functionFilter line = []
    · rw [if_pos hnone, hnone.1, hnone.2]
      rfl
    · rw [if_neg hnone]
      rw [not_and_or, ← List.length_eq_zero_iff, ← List.length_eq_zero_iff] at hnone
      exact if_pos hnone
  · intro hnone
    rw [hnone] at hmaxSize
    rw [traceConfig, SaOpts.maxFileSizeBytes, hmaxSize]
    rfl
  · intro arg harg size hvalue hsmall
    rw [harg] at hmaxSize
    rw [traceConfig, SaOpts.maxFileSizeBytes, hmaxSize]
    change (mebibytes arg).toUInt64.toNat = _
    obtain ⟨size', hsize', -, hbytes⟩ := (stored_mebibytes (strtol 0 arg).value).mpr
      ⟨hvalue ▸ Int.natCast_nonneg size, hvalue ▸ by exact_mod_cast hsmall⟩
    obtain rfl : size' = size := by
      rw [hvalue] at hsize'
      exact_mod_cast hsize'.symm
    exact hbytes
  · intro android
    rw [collectedFile, hfile, hopened, eq_comm, List.take_eq_self_iff]

/-- A line that is traced elsewhere, with a limit and an event. -/
def tracedLine : CommandLine :=
  [(.outputPath, "/tmp".toList), (.maxSize, "100".toList), (.irq, []),
    (.ftraceEvent, "sched/sched_wakeup".toList), (.app, []), (.outputPath, "/data".toList)]

theorem configuredBy_line_tracedLine :
    ∃ opts, parseCommandLine .initial tracedLine = .accepted opts [] ∧
      ConfiguredBy tracedLine opts :=
  ⟨_, rfl, configuredBy_line (show parseCommandLine .initial tracedLine = .accepted _ [] from rfl)⟩

end SchedAnalyzer
