import SchedAnalyzer.Trace.Call
import SchedAnalyzer.User.Options

/-! # Options and the calls they are for -/

namespace SchedAnalyzer

/-- The options of `sa_opts` that turn trace calls on. -/
inductive SaOption
  | loadAvgCpu
  | runnableAvgCpu
  | utilAvgCpu
  | loadAvgTask
  | runnableAvgTask
  | utilAvgTask
  | utilAvgRt
  | utilAvgDl
  | utilAvgIrq
  | loadAvgThermal
  | utilEstCpu
  | utilEstTask
  | cpuNrRunning
  | cpuIdle
  | loadBalance
  | ipi
  deriving DecidableEq, Repr

/-- Whether an option is on. -/
def SaOpts.isOn (opts : SaOpts) : SaOption → Bool
  | .loadAvgCpu => opts.loadAvgCpu
  | .runnableAvgCpu => opts.runnableAvgCpu
  | .utilAvgCpu => opts.utilAvgCpu
  | .loadAvgTask => opts.loadAvgTask
  | .runnableAvgTask => opts.runnableAvgTask
  | .utilAvgTask => opts.utilAvgTask
  | .utilAvgRt => opts.utilAvgRt
  | .utilAvgDl => opts.utilAvgDl
  | .utilAvgIrq => opts.utilAvgIrq
  | .loadAvgThermal => opts.loadAvgThermal
  | .utilEstCpu => opts.utilEstCpu
  | .utilEstTask => opts.utilEstTask
  | .cpuNrRunning => opts.cpuNrRunning
  | .cpuIdle => opts.cpuIdle
  | .loadBalance => opts.loadBalance
  | .ipi => opts.ipi

/-- The option of a CPU-level signal; the uclamped one comes with `util_avg`. -/
def CpuSignal.option : CpuSignal → SaOption
  | .loadAvg => .loadAvgCpu
  | .runnableAvg => .runnableAvgCpu
  | .utilAvg | .uclampedAvg => .utilAvgCpu
  | .utilEstEnqueued => .utilEstCpu
  | .utilAvgRt => .utilAvgRt
  | .utilAvgDl => .utilAvgDl
  | .utilAvgIrq => .utilAvgIrq
  | .loadAvgThermal => .loadAvgThermal
  | .nrRunning => .cpuNrRunning

/-- The option of a task-level signal. -/
def TaskSignal.option : TaskSignal → SaOption
  | .loadAvg => .loadAvgTask
  | .runnableAvg => .runnableAvgTask
  | .utilAvg | .uclampedAvg => .utilAvgTask
  | .utilEstEnqueued | .utilEstEwma => .utilEstTask

/-- The option a trace call belongs to. -/
def TraceCall.option : TraceCall → SaOption
  | .cpu signal _ _ _ => signal.option
  | .task signal _ _ _ _ => signal.option
  | .cpuIdle _ _ _ => .cpuIdle
  | .cpuIdleMiss _ _ _ _ => .cpuIdle
  | .lbEntry _ _ _ _ => .loadBalance
  | .lbExit _ _ _ => .loadBalance
  | .lbSdStats _ _ _ => .loadBalance
  | .lbOverloaded _ _ => .loadBalance
  | .lbOverutilized _ _ => .loadBalance
  | .lbMisfit _ _ _ => .loadBalance
  | .ipiSendCpu _ _ _ _ _ _ _ => .ipi

end SchedAnalyzer
