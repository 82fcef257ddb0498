import SchedAnalyzer.Foundation.CString
import SchedAnalyzer.Trace.Call

/-! # The Perfetto wrapper

What the functions of `perfetto_wrapper.cc` write to the trace: counters on
tracks named through a fixed buffer, and slices on numbered tracks.
-/

namespace SchedAnalyzer

open Foundation.CString

/-- The tracks slices live on: the numbered ones, and the default track of the
thread that writes the event. -/
inductive SliceTrack
  | uuid (id : Int)
  | callingThread
  deriving DecidableEq, Repr

/-- The value of a debug annotation. -/
inductive Annotation
  | int (value : Int)
  | text (value : List Char)
  | pointer (value : UInt64)
  deriving DecidableEq, Repr

/-- One event in the trace. -/
inductive TrackEvent
  | counter (category : String) (track : List Char) (ts : UInt64) (value : Int)
  | sliceBegin (category : String) (name : String) (track : SliceTrack) (ts : UInt64)
      (annotations : List (List Char × Annotation))
  | sliceEnd (category : String) (track : SliceTrack) (ts : Option UInt64)
  deriving DecidableEq, Repr

/-! ## Counters -/

/-- A name built in `char track_name[32]`. -/
def trackName (text : List Char) : List Char :=
  snprintf 32 text

/-- The name `CPU%d <signal>`. -/
def cpuTrackName (signal : String) (cpu : Int32) : List Char :=
  trackName ("CPU".toList ++ formatInt cpu.toInt ++ ' ' :: signal.toList)

/-- The name `%s-%d <signal>`. -/
def taskTrackName (signal : String) (name : List Char) (pid : Int32) : List Char :=
  trackName (name ++ '-' :: formatInt pid.toInt ++ ' ' :: signal.toList)

/-- The common body of the CPU-level counters. -/
def traceCpuCounter (category signal : String) (ts : UInt64) (cpu value : Int32) :
    List TrackEvent :=
  [.counter category (cpuTrackName signal cpu) ts value.toInt]

/-- The common body of the task-level counters. -/
def traceTaskCounter (category signal : String) (ts : UInt64) (name : List Char)
    (pid value : Int32) : List TrackEvent :=
  [.counter category (taskTrackName signal name pid) ts value.toInt]

def traceCpuLoadAvg := traceCpuCounter "pelt-cpu" "load_avg"
def traceCpuRunnableAvg := traceCpuCounter "pelt-cpu" "runnable_avg"
def traceCpuUtilAvg := traceCpuCounter "pelt-cpu" "util_avg"
def traceCpuUclampedAvg := traceCpuCounter "pelt-cpu" "uclamped_avg"
def traceCpuUtilEstEnqueued := traceCpuCounter "pelt-cpu" "util_est.enqueued"
def traceCpuUtilAvgRt := traceCpuCounter "pelt-cpu" "util_avg_rt"
-- These two carry the format string of the RT counter in the source as well.
def traceCpuUtilAvgDl := traceCpuCounter "pelt-cpu" "util_avg_rt"
def traceCpuUtilAvgIrq := traceCpuCounter "pelt-cpu" "util_avg_rt"
def traceCpuLoadAvgThermal := traceCpuCounter "pelt-cpu" "load_avg_thermal"
def traceCpuNrRunning := traceCpuCounter "nr-running-cpu" "nr_running"
def traceCpuIdle := traceCpuCounter "cpu-idle" "idle_state"

def traceTaskLoadAvg := traceTaskCounter "pelt-task" "load_avg"
def traceTaskRunnableAvg := traceTaskCounter "pelt-task" "runnable_avg"
def traceTaskUtilAvg := traceTaskCounter "pelt-task" "util_avg"
def traceTaskUclampedAvg := traceTaskCounter "pelt-task" "uclamped_avg"
def traceTaskUtilEstEnqueued := traceTaskCounter "pelt-task" "util_est.enqueued"
def traceTaskUtilEstEwma := traceTaskCounter "pelt-task" "util_est.ewma"

def traceLbSdStats (ts : UInt64) (cpu : Int32) (levels : List (Int32 × UInt32)) :
    List TrackEvent :=
  levels.map fun (level, interval) =>
    .counter "load-balance"
      (snprintf 64 ("CPU".toList ++ formatInt cpu.toInt ++ ".level".toList ++
        formatInt level.toInt ++ ".balance_interval".toList))
      ts interval.toNat

def traceLbOverloaded (ts : UInt64) (value : UInt32) : List TrackEvent :=
  [.counter "load-balance" (trackName "rd.overloaded".toList) ts value.toNat]

def traceLbOverutilized (ts : UInt64) (value : UInt32) : List TrackEvent :=
  [.counter "load-balance" (trackName "rd.overutilized".toList) ts value.toNat]

def traceLbMisfit (ts : UInt64) (cpu : Int32) (misfitTaskLoad : UInt64) : List TrackEvent :=
  [.counter "load-balance" (cpuTrackName "misfit_task_load" cpu) ts misfitTaskLoad.toNat]

/-! ## Slices -/

/-- `enum sched_analyzer_track_ids`. -/
inductive SliceFamily
  | cpuIdleMiss
  | loadBalance
  | ipi
  deriving DecidableEq, Repr

def SliceFamily.code : SliceFamily → Int
  | .cpuIdleMiss => 1
  | .loadBalance => 2
  | .ipi => 3

/-- `TRACK_SPACING`. -/
def trackSpacing : Int := 1000

/-- `perfetto::Track(TRACK_ID(family) + cpu)`. -/
def sliceTrack (family : SliceFamily) (cpu : Int32) : SliceTrack :=
  .uuid (family.code * trackSpacing + cpu.toInt)

/-- `FAKE_DURATION`, 10us. -/
def fakeDuration : UInt64 := 10000

/-- `TRACE_EVENT` begins a slice on its track; the end it writes when the scope
is left goes to the track of the calling thread. -/
def traceEvent (category name : String) (track : SliceTrack) (ts : UInt64)
    (annotations : List (List Char × Annotation)) (body : List TrackEvent) : List TrackEvent :=
  .sliceBegin category name track ts annotations :: body ++
    [.sliceEnd category .callingThread none]

def traceCpuIdleMiss (ts : UInt64) (cpu state miss : Int32) : List TrackEvent :=
  traceEvent "cpu-idle" "cpu_idle_miss" (sliceTrack .cpuIdleMiss cpu) ts
    [("CPU".toList, .int cpu.toInt), ("STATE".toList, .int state.toInt),
      ("MISS".toList, .text (if miss < 0 then "below" else "above").toList)]
    [.sliceEnd "cpu-idle" (sliceTrack .cpuIdleMiss cpu) (some (ts + fakeDuration))]

def traceLbEntry (ts : UInt64) (thisCpu lbCpu : Int32) (phase : String) : List TrackEvent :=
  [.sliceBegin "load-balance" phase (sliceTrack .loadBalance thisCpu) ts
    [("CPU".toList, .int lbCpu.toInt)]]

def traceLbExit (ts : UInt64) (thisCpu _lbCpu : Int32) : List TrackEvent :=
  [.sliceEnd "load-balance" (sliceTrack .loadBalance thisCpu) (some ts)]

/-- The annotation for one of the two functions of an IPI: its symbol with a
fixed value, or a fixed name with its address. -/
def ipiAnnotation (symbol : Option (List Char)) (fallback : String) (mark address : UInt64) :
    List Char × Annotation :=
  match symbol with
  | some name => (name, .pointer mark)
  | none => (fallback.toList, .pointer address)

def traceIpiSendCpu (ts : UInt64) (fromCpu targetCpu : Int32) (callsite : Option (List Char))
    (callsitep : UInt64) (callback : Option (List Char)) (callbackp : UInt64) :
    List TrackEvent :=
  traceEvent "ipi" "ipi_send_cpu" (sliceTrack .ipi fromCpu) ts
    [("FROM_CPU".toList, .int fromCpu.toInt), ("TARGET_CPU".toList, .int targetCpu.toInt),
      ipiAnnotation callsite "CALLSITE" 1 callsitep,
      ipiAnnotation callback "CALLBACK" 2 callbackp]
    [.sliceEnd "ipi" (sliceTrack .ipi fromCpu) (some (ts + fakeDuration))]

/-! ## Running a call -/

/-- The function behind a CPU-level signal. -/
def CpuSignal.trace : CpuSignal → UInt64 → Int32 → Int32 → List TrackEvent
  | .loadAvg => traceCpuLoadAvg
  | .runnableAvg => traceCpuRunnableAvg
  | .utilAvg => traceCpuUtilAvg
  | .uclampedAvg => traceCpuUclampedAvg
  | .utilEstEnqueued => traceCpuUtilEstEnqueued
  | .utilAvgRt => traceCpuUtilAvgRt
  | .utilAvgDl => traceCpuUtilAvgDl
  | .utilAvgIrq => traceCpuUtilAvgIrq
  | .loadAvgThermal => traceCpuLoadAvgThermal
  | .nrRunning => traceCpuNrRunning

/-- The function behind a task-level signal. -/
def TaskSignal.trace : TaskSignal → UInt64 → List Char → Int32 → Int32 → List TrackEvent
  | .loadAvg => traceTaskLoadAvg
  | .runnableAvg => traceTaskRunnableAvg
  | .utilAvg => traceTaskUtilAvg
  | .uclampedAvg => traceTaskUclampedAvg
  | .utilEstEnqueued => traceTaskUtilEstEnqueued
  | .utilEstEwma => traceTaskUtilEstEwma

/-- What a call writes to the trace. -/
def TraceCall.run : TraceCall → List TrackEvent
  | .cpu signal ts onCpu value => signal.trace ts onCpu value
  | .task signal ts name pid value => signal.trace ts name pid value
  | .cpuIdle ts onCpu state => traceCpuIdle ts onCpu state
  | .cpuIdleMiss ts onCpu state miss => traceCpuIdleMiss ts onCpu state miss
  | .lbEntry ts thisCpu lbCpu phase => traceLbEntry ts thisCpu lbCpu phase
  | .lbExit ts thisCpu lbCpu => traceLbExit ts thisCpu lbCpu
  | .lbSdStats ts onCpu levels => traceLbSdStats ts onCpu levels
  | .lbOverloaded ts value => traceLbOverloaded ts value
  | .lbOverutilized ts value => traceLbOverutilized ts value
  | .lbMisfit ts onCpu misfitTaskLoad => traceLbMisfit ts onCpu misfitTaskLoad
  | .ipiSendCpu ts fromCpu targetCpu callsite callsitep callback callbackp =>
      traceIpiSendCpu ts fromCpu targetCpu callsite callsitep callback callbackp

end SchedAnalyzer
