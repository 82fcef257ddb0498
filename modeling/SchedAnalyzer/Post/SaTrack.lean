import SchedAnalyzer.Foundation.Lists
import SchedAnalyzer.Trace.Names

/-! # The track query of sched-analyzer-pp

`sa_track.init` selects the counter rows of one signal by the end of the
counter's name. The names are those the wrapper wrote, so the two encodings of
a signal agree only where the wrapper's format string says what the reader asks
for.
-/

namespace SchedAnalyzer

open Foundation.CString Foundation.Lists Foundation.SqlLike

/-! ## The query -/

/-- A row of the joined counter, track and process tables. -/
structure CounterRow where
  ts : UInt64
  value : Int
  counterName : List Char
  processName : List Char
  deriving DecidableEq, Repr

/-- `sa_track.query`, formatted with a pattern. -/
def saTrackQuery (collation : Collation) (rows : List CounterRow) (pattern : List Char) :
    List CounterRow :=
  rows.filter fun row =>
    like collation "%sched-analyzer".toList row.processName &&
      like collation pattern row.counterName

/-- `sa_track.init(trace, signal)`. -/
def saTrackInit (collation : Collation) (rows : List CounterRow) (signal : String) :
    List CounterRow :=
  let signal := if "util_est".toList <:+: signal.toList then "util_est.enq%" else signal
  saTrackQuery collation rows ("% ".toList ++ signal.toList)

/-- The signals `main` offers for CPUs, in the order it processes them. -/
inductive PpSignal
  | utilAvg
  | utilAvgRt
  | utilAvgDl
  | utilAvgIrq
  | utilEst
  | loadAvgThermal
  | loadAvg
  | runnableAvg
  | uclampedAvg
  | cpuNrRunning
  deriving DecidableEq, Repr

namespace PpSignal

/-- The option name `main` passes on. -/
def name : PpSignal → String
  | utilAvg => "util_avg"
  | utilAvgRt => "util_avg_rt"
  | utilAvgDl => "util_avg_dl"
  | utilAvgIrq => "util_avg_irq"
  | utilEst => "util_est"
  | loadAvgThermal => "load_avg_thermal"
  | loadAvg => "load_avg"
  | runnableAvg => "runnable_avg"
  | uclampedAvg => "uclamped_avg"
  | cpuNrRunning => "cpu_nr_running"

/-- The trace call an option is meant to show. -/
def own : PpSignal → CpuSignal
  | utilAvg => .utilAvg
  | utilAvgRt => .utilAvgRt
  | utilAvgDl => .utilAvgDl
  | utilAvgIrq => .utilAvgIrq
  | utilEst => .utilEstEnqueued
  | loadAvgThermal => .loadAvgThermal
  | loadAvg => .loadAvg
  | runnableAvg => .runnableAvg
  | uclampedAvg => .uclampedAvg
  | cpuNrRunning => .nrRunning

/-- The trace calls whose samples come under a name that the option's pattern
takes for its own, or does not recognise although they are its own. -/
def misnamed : PpSignal → List CpuSignal
  | utilAvgRt => [.utilAvgDl, .utilAvgIrq]
  | utilAvgDl => [.utilAvgDl]
  | utilAvgIrq => [.utilAvgIrq]
  | cpuNrRunning => [.nrRunning]
  | _ => []

/-- The trace calls whose names the option's pattern selects. -/
def selects : PpSignal → CpuSignal → Bool
  | utilAvgRt, signal => signal ∈ [CpuSignal.utilAvgRt, .utilAvgDl, .utilAvgIrq]
  | utilAvgDl, _ => false
  | utilAvgIrq, _ => false
  | cpuNrRunning, _ => false
  | option, signal => signal == option.own

/-- The pattern after `% `. -/
def pattern (option : PpSignal) : List Char :=
  if option = utilEst then "util_est.enq%".toList else option.name.toList

theorem saTrackInit_name (collation : Collation) (rows : List CounterRow) (option : PpSignal) :
    saTrackInit collation rows option.name =
      saTrackQuery collation rows ('%' :: ' ' :: option.pattern) := by
  cases option <;> rfl

end PpSignal

/-! ## The rows of a run -/

/-- A process name that the query accepts. -/
structure AnalyzerProcess (collation : Collation) where
  name : List Char
  accepted : like collation "%sched-analyzer".toList name = true

/-- Perfetto stores a counter under its name, and under the process that wrote it. -/
def TrackEvent.row (process : List Char) : TrackEvent → Option CounterRow
  | .counter _ track ts value => some ⟨ts, value, track, process⟩
  | _ => none

/-- A call of one of the CPU-level counters. -/
structure CpuTraceCall where
  signal : CpuSignal
  ts : UInt64
  cpu : Int32
  value : Int32
  deriving DecidableEq, Repr

/-- The rows a call adds to the trace. -/
def CpuTraceCall.rows (process : List Char) (call : CpuTraceCall) : List CounterRow :=
  (TraceCall.cpu call.signal call.ts call.cpu call.value).run.filterMap (·.row process)

/-- The rows of a sequence of calls. -/
def traceRows (process : List Char) (calls : List CpuTraceCall) : List CounterRow :=
  calls.flatMap (·.rows process)

/-- The samples of the trace call that an option is for. -/
def ownSamples (process : List Char) (option : PpSignal) (calls : List CpuTraceCall) :
    List CounterRow :=
  traceRows process (calls.filter (fun call => call.signal == option.own))

/-! ## What each pattern selects -/

/-- The text each signal's counter is named with. -/
def CpuSignal.format : CpuSignal → String
  | .loadAvg => "load_avg"
  | .runnableAvg => "runnable_avg"
  | .utilAvg => "util_avg"
  | .uclampedAvg => "uclamped_avg"
  | .utilEstEnqueued => "util_est.enqueued"
  | .utilAvgRt | .utilAvgDl | .utilAvgIrq => "util_avg_rt"
  | .loadAvgThermal => "load_avg_thermal"
  | .nrRunning => "nr_running"

/-- A call adds one row, named after its signal's text. -/
theorem CpuTraceCall.rows_eq (process : List Char) (call : CpuTraceCall) :
    call.rows process =
      [⟨call.ts, call.value.toInt, cpuTrackName call.signal.format call.cpu, process⟩] := by
  rcases call with ⟨signal, ts, cpu, value⟩
  cases signal <;> rfl

/-- What the buffer keeps of a signal's text: all of it, but for the longest one. -/
theorem CpuSignal.format_take (signal : CpuSignal) {kept : Nat} (hkept : 16 ≤ kept) :
    signal.format.toList.take kept = signal.format.toList ∨
      signal = .utilEstEnqueued ∧
        signal.format.toList.take kept = "util_est.enqueue".toList := by
  by_cases hall : signal.format.toList.length ≤ kept
  · exact Or.inl (List.take_of_length_le hall)
  · right
    cases signal
    case utilEstEnqueued =>
      have hlen : (CpuSignal.format .utilEstEnqueued).toList.length = 17 := rfl
      have hsixteen : kept = 16 := by omega
      subst hsixteen
      exact ⟨rfl, rfl⟩
    all_goals
      exfalso
      apply hall
      exact Nat.le_trans (by decide) hkept

theorem CpuSignal.blank_notMem_format (signal : CpuSignal) : ' ' ∉ signal.format.toList := by
  cases signal <;> decide

/-- The pattern of an option, compared with the name of a counter. -/
theorem PpSignal.like_pattern (collation : Collation) (option : PpSignal) (signal : CpuSignal)
    (cpu : Int32) :
    like collation ('%' :: ' ' :: option.pattern) (cpuTrackName signal.format cpu) =
      option.selects signal := by
  obtain ⟨kept, hkept, heq⟩ :=
    like_cpuTrackName collation option.pattern signal.blank_notMem_format cpu
  rw [heq]
  rcases signal.format_take hkept with hfull | ⟨rfl, hcut⟩
  · rw [hfull]
    cases collation <;> cases option <;> cases signal <;> decide
  · rw [hcut]
    cases collation <;> cases option <;> decide

theorem saTrackInit_traceRows {collation : Collation} (process : AnalyzerProcess collation)
    (option : PpSignal) (calls : List CpuTraceCall) :
    saTrackInit collation (traceRows process.name calls) option.name =
      traceRows process.name (calls.filter (fun call => option.selects call.signal)) := by
  rw [option.saTrackInit_name]
  induction calls with
  | nil => rfl
  | cons call rest ih =>
      simp only [saTrackQuery, traceRows, List.flatMap_cons, List.filter_append] at ih ⊢
      rw [ih, call.rows_eq]
      have hrow : like collation ('%' :: ' ' :: option.pattern)
          (cpuTrackName call.signal.format call.cpu) = option.selects call.signal :=
        option.like_pattern collation call.signal call.cpu
      simp only [List.filter_cons, List.filter_nil, process.accepted, hrow, Bool.true_and]
      cases option.selects call.signal <;> simp [call.rows_eq]

/-! ## Which signals are shown exactly -/

theorem traceRows_eq_map (process : List Char) (calls : List CpuTraceCall) :
    traceRows process calls =
      calls.map fun call =>
        ⟨call.ts, call.value.toInt, cpuTrackName call.signal.format call.cpu, process⟩ := by
  induction calls with
  | nil => rfl
  | cons call rest ih =>
      have hcons : traceRows process (call :: rest) =
          call.rows process ++ traceRows process rest := rfl
      rw [hcons, ih, call.rows_eq, List.map_cons]
      rfl

namespace PpSignal

/-- An option's pattern either misses samples of its own or takes some of
others, never both. -/
theorem selects_comparable (option : PpSignal) :
    (∀ signal, option.selects signal = true → (signal == option.own) = true) ∨
      (∀ signal, (signal == option.own) = true → option.selects signal = true) := by
  cases option
  case utilAvgRt =>
    right
    intro signal
    cases signal <;> decide
  all_goals
    left
    intro signal
    cases signal <;> decide

theorem selects_eq_own_iff (option : PpSignal) (signal : CpuSignal) :
    option.selects signal = (signal == option.own) ↔ signal ∉ option.misnamed := by
  cases option <;> cases signal <;> decide

end PpSignal

/-- The query shows exactly the samples of its signal if and only if the run has
no call whose counter is misnamed for it: for `util_avg_rt` no DL or IRQ sample,
for `util_avg_dl`, `util_avg_irq` and `cpu_nr_running` no sample of their own. -/
theorem saTrackInit_exact_iff {collation : Collation} (process : AnalyzerProcess collation)
    (option : PpSignal) (calls : List CpuTraceCall) :
    saTrackInit collation (traceRows process.name calls) option.name =
        ownSamples process.name option calls ↔
      ∀ call ∈ calls, call.signal ∉ option.misnamed := by
  rw [saTrackInit_traceRows, ownSamples]
  constructor
  · intro heq
    -- As many rows are selected as are its own, and one set contains the other.
    have hlen : (calls.filter (fun call => option.selects call.signal)).length =
        (calls.filter (fun call => call.signal == option.own)).length := by
      have hrows := congrArg List.length heq
      simpa only [traceRows_eq_map, List.length_map] using hrows
    intro call hcall
    rw [← option.selects_eq_own_iff]
    rcases option.selects_comparable with hsound | hcomplete
    · exact eq_of_length_filter_eq (fun call => hsound call.signal) hlen call hcall
    · exact (eq_of_length_filter_eq (fun call => hcomplete call.signal) hlen.symm
        call hcall).symm
  · intro hnames
    congr 1
    apply List.filter_congr
    intro call hcall
    exact (option.selects_eq_own_iff call.signal).mpr (hnames call hcall)

/-- A recording process, for either collation. -/
def recorder (collation : Collation) : AnalyzerProcess collation where
  name := "sched-analyzer".toList
  accepted := by cases collation <;> decide

/-- One DL sample is lost to `util_avg_dl` and shown as an RT one. -/
theorem saTrackInit_dl_sample_misplaced :
    ¬ ∀ (option : PpSignal) (calls : List CpuTraceCall),
      saTrackInit .asciiNoCase (traceRows (recorder .asciiNoCase).name calls) option.name =
        ownSamples (recorder .asciiNoCase).name option calls := by
  intro hexact
  have hdl := hexact .utilAvgDl [⟨.utilAvgDl, 1000, 0, 300⟩]
  revert hdl
  decide

end SchedAnalyzer
