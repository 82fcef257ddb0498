import SchedAnalyzer.Bpf.Programs
import SchedAnalyzer.Foundation.Transducer
import SchedAnalyzer.User.Handlers

/-! # Enabling programs and running the tool

`main` turns off the programs no option needs. The tool then maps a sequence of
hook invocations to trace calls: the programs that are on submit records, and
the handlers of the ring buffers consume them.
-/

namespace SchedAnalyzer

open Foundation

/-- The programs of the load-balance block, in the order `main` lists them. -/
def loadBalancePrograms : List Program :=
  [.handleRunRebalanceDomainsExit, .handleRunRebalanceDomainsEntry,
    .handleRunRebalanceDomainsExit, .handleRebalanceDomainsEntry, .handleRebalanceDomainsExit,
    .handleBalanceFairEntry, .handleBalanceFairExit, .handlePickNextTaskFairEntry,
    .handlePickNextTaskFairExit, .handleNewidleBalanceEntry, .handleNewidleBalanceExit,
    .handleLoadBalanceEntry, .handleLoadBalanceExit]

/-- The programs `main` disables whatever the options. -/
def alwaysDisabled : List Program :=
  [.handleNohzIdleBalanceEntry, .handleNohzIdleBalanceExit, .handleCpuFrequency,
    .handleSoftirqEntry, .handleSoftirqExit, .handleSchedSwitch]

/-- `bpf_program__set_autoload(program, false)` for some programs, under a condition. -/
def disableIf (condition : Bool) (programs : List Program) : List Program :=
  if condition then programs else []

/-- The programs `main` disables, in order. -/
def disabledPrograms (opts : SaOpts) : List Program :=
  disableIf (!opts.loadAvgCpu && !opts.runnableAvgCpu && !opts.utilAvgCpu) [.handlePeltCfs] ++
    disableIf (!opts.loadAvgTask && !opts.runnableAvgTask && !opts.utilAvgTask) [.handlePeltSe] ++
    disableIf (!opts.utilAvgRt) [.handlePeltRt] ++
    disableIf (!opts.utilAvgDl) [.handlePeltDl] ++
    disableIf (!opts.utilAvgIrq) [.handlePeltIrq] ++
    disableIf (!opts.loadAvgThermal) [.handlePeltThermal] ++
    disableIf (!opts.utilEstCpu) [.handleUtilEstCfs] ++
    disableIf (!opts.utilEstTask) [.handleUtilEstSe] ++
    disableIf (!opts.cpuNrRunning) [.handleSchedUpdateNrRunning] ++
    disableIf (!opts.cpuIdle) [.handleCpuIdle, .handleCpuIdleMiss] ++
    disableIf (!opts.loadBalance) loadBalancePrograms ++
    disableIf (!opts.ipi) [.handleIpiSendCpu] ++
    disableIf (!opts.loadAvgTask && !opts.runnableAvgTask && !opts.utilAvgTask &&
      !opts.utilEstTask) [.handleSchedProcessFree] ++
    alwaysDisabled

/-- Whether `main` leaves a program enabled. -/
def autoload (opts : SaOpts) (program : Program) : Bool :=
  !(disabledPrograms opts).contains program

/-- Every program attached and every handler running: hook invocations in, trace
calls out. -/
def tracer (k : KernelInfo) (state : UserState) : Transducer BpfMaps Firing TraceCall where
  step maps f :=
    let result := fire k maps f
    (result.1, result.2.flatMap (handleRecord state))

/-- The calls of one hook when the maps are empty. -/
def hookCalls (k : KernelInfo) (state : UserState) (f : Firing) : List TraceCall :=
  ((tracer k state).step .empty f).2

/-- The tool as `main` sets it up: a disabled program is never attached. -/
def sessionTracer (k : KernelInfo) (state : UserState) :
    Transducer BpfMaps Firing TraceCall where
  step maps f :=
    if autoload state.opts f.hook.program then (tracer k state).step maps f else (maps, [])

end SchedAnalyzer
