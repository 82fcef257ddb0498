import SchedAnalyzer.Trace.Call
import SchedAnalyzer.User.Kallsyms
import SchedAnalyzer.User.Options

/-! # Ring-buffer handlers

Each handler turns a record into trace calls, under the options. What a handler
prints to stderr is not part of the trace.
-/

namespace SchedAnalyzer

open Foundation.CString

/-- The state of the tool that the handlers read. -/
structure UserState where
  opts : SaOpts
  kallsyms : SymbolTable maxNumSymbols

/-- The state after the options are parsed. -/
def UserState.initial (opts : SaOpts) : UserState where
  opts := opts
  kallsyms := .initial maxNumSymbols

/-- `ignore_pid_comm(pid, comm)`. -/
def ignorePidComm (opts : SaOpts) (pid : Int32) (comm : List Char) : Bool :=
  if opts.pid.length = 0 ∧ opts.comm.length = 0 then false
  else if opts.pid.any (fun filter => filter == pid) then false
  else if opts.comm.any (fun filter => strstr comm filter) then false
  else true

/-- The `clamp` macro. -/
def clamp (val lo hi : UInt64) : UInt64 :=
  if val ≥ hi then hi else if val ≤ lo then lo else val

/-- The calls made when a condition holds. -/
def callsIf (condition : Bool) (calls : List TraceCall) : List TraceCall :=
  if condition then calls else []

@[simp] theorem callsIf_true (calls : List TraceCall) : callsIf true calls = calls := rfl

@[simp] theorem callsIf_false (calls : List TraceCall) : callsIf false calls = [] := rfl

@[simp] theorem mem_callsIf {condition : Bool} {calls : List TraceCall} {call : TraceCall} :
    call ∈ callsIf condition calls ↔ condition = true ∧ call ∈ calls := by
  cases condition <;> simp

@[simp] theorem filterMap_callsIf {β : Type} (condition : Bool) (calls : List TraceCall)
    (select : TraceCall → Option β) :
    (callsIf condition calls).filterMap select =
      if condition then calls.filterMap select else [] := by
  cases condition <;> rfl

/-- The `util_avg` part of `handle_rq_pelt_event`, which looks at the type. -/
def rqUtilAvgCalls (opts : SaOpts) (e : RqPeltEvent) : List TraceCall :=
  match PeltType.ofCode e.type with
  | some .cfs =>
      callsIf opts.utilAvgCpu
        (.cpu .utilAvg e.ts e.cpu (toCInt e.utilAvg) ::
          callsIf (e.uclampMin != absent && e.uclampMax != absent)
            [.cpu .uclampedAvg e.ts e.cpu
              (toCInt (clamp e.utilAvg e.uclampMin e.uclampMax))])
  | some .rt => callsIf opts.utilAvgRt [.cpu .utilAvgRt e.ts e.cpu (toCInt e.utilAvg)]
  | some .dl => callsIf opts.utilAvgDl [.cpu .utilAvgDl e.ts e.cpu (toCInt e.utilAvg)]
  | some .irq => callsIf opts.utilAvgIrq [.cpu .utilAvgIrq e.ts e.cpu (toCInt e.utilAvg)]
  -- "Unexpected PELT type"
  | _ => []

def handleRqPeltEvent (opts : SaOpts) (e : RqPeltEvent) : List TraceCall :=
  callsIf (opts.loadAvgCpu && e.loadAvg != absent)
      [.cpu .loadAvg e.ts e.cpu (toCInt e.loadAvg)] ++
    callsIf (opts.runnableAvgCpu && e.runnableAvg != absent)
      [.cpu .runnableAvg e.ts e.cpu (toCInt e.runnableAvg)] ++
    callsIf (e.type == PeltType.thermal.code && opts.loadAvgThermal)
      [.cpu .loadAvgThermal e.ts e.cpu (toCInt e.loadAvg)] ++
    callsIf (e.utilAvg != absent) (rqUtilAvgCalls opts e) ++
    callsIf (opts.utilEstCpu && e.utilEstEnqueued != absent)
      [.cpu .utilEstEnqueued e.ts e.cpu (toCInt e.utilEstEnqueued)]

def handleTaskPeltEvent (opts : SaOpts) (e : TaskPeltEvent) : List TraceCall :=
  if ignorePidComm opts e.pid e.comm then []
  else
    callsIf (opts.loadAvgTask && e.loadAvg != absent)
        [.task .loadAvg e.ts (cstr e.comm) e.pid (toCInt e.loadAvg)] ++
      callsIf (opts.runnableAvgTask && e.runnableAvg != absent)
        [.task .runnableAvg e.ts (cstr e.comm) e.pid (toCInt e.runnableAvg)] ++
      callsIf (opts.utilAvgTask && e.utilAvg != absent)
        (.task .utilAvg e.ts (cstr e.comm) e.pid (toCInt e.utilAvg) ::
          callsIf (e.uclampMin != absent && e.uclampMax != absent)
            [.task .uclampedAvg e.ts (cstr e.comm) e.pid
              (toCInt (clamp e.utilAvg e.uclampMin e.uclampMax))]) ++
      callsIf (opts.utilEstTask && e.utilEstEnqueued != absent)
        [.task .utilEstEnqueued e.ts (cstr e.comm) e.pid (toCInt e.utilEstEnqueued),
          .task .utilEstEwma e.ts (cstr e.comm) e.pid (toCInt e.utilEstEwma)]

def handleRqNrRunningEvent (opts : SaOpts) (e : RqNrRunningEvent) : List TraceCall :=
  callsIf opts.cpuNrRunning [.cpu .nrRunning e.ts e.cpu e.nrRunning]

/-- The resets are gated as in the source: `load_avg` by the option of `util_avg`. -/
def handleSchedSwitchEvent (opts : SaOpts) (e : SchedSwitchEvent) : List TraceCall :=
  if ignorePidComm opts e.pid e.comm then []
  else
    callsIf (e.running == 0 && opts.utilAvgTask)
        [.task .loadAvg e.ts (cstr e.comm) e.pid 0] ++
      callsIf (e.running == 0 && opts.utilAvgTask)
        [.task .utilAvg e.ts (cstr e.comm) e.pid 0,
          .task .uclampedAvg e.ts (cstr e.comm) e.pid 0] ++
      callsIf (e.running == 0 && opts.utilEstTask)
        [.task .utilEstEnqueued e.ts (cstr e.comm) e.pid 0,
          .task .utilEstEwma e.ts (cstr e.comm) e.pid 0]

def handleFreqIdleEvent (opts : SaOpts) (e : FreqIdleEvent) : List TraceCall :=
  callsIf opts.cpuIdle
    (.cpuIdle e.ts e.cpu e.idleState ::
      callsIf (e.idleMiss != 0) [.cpuIdleMiss e.ts e.cpu e.idleState e.idleMiss])

/-- The softirq records are read and dropped. -/
def handleSoftirqEvent (_opts : SaOpts) (_e : SoftirqEvent) : List TraceCall :=
  []

/-- The name of a phase on its slice. -/
def LbPhase.label : LbPhase → String
  | .nohzIdleBalance => "_nohz_idle_balance()"
  | .runRebalanceDomains => "run_rebalance_domains()"
  | .rebalanceDomains => "rebalance_domains()"
  | .balanceFair => "balance_fair()"
  | .pickNextTaskFair => "pick_next_task_fair()"
  | .newidleBalance => "newidle_balance()"
  | .loadBalance => "load_balance()"

/-- The levels `trace_lb_sd_stats` walks: up to the terminator or the array's end. -/
def LbSdStats.levels (stats : LbSdStats) : List (Int32 × UInt32) :=
  ((List.range maxSdLevels).map fun i => (stats.level i, stats.balanceInterval i)).takeWhile
    fun entry => !(entry.1 == -1 && entry.2 == 0)

def handleLbEvent (_opts : SaOpts) (e : LbEvent) : List TraceCall :=
  let phase := LbPhase.ofCode e.phase
  callsIf (phase == some .rebalanceDomains && e.entry)
      [.lbSdStats e.ts e.sdStats.cpu e.sdStats.levels] ++
    callsIf (e.overloaded != absent32) [.lbOverloaded e.ts e.overloaded] ++
    callsIf (e.overutilized != absent32) [.lbOverutilized e.ts e.overutilized] ++
    callsIf (e.misfitTaskLoad != absent) [.lbMisfit e.ts e.lbCpu e.misfitTaskLoad] ++
    (if e.entry then
      [.lbEntry e.ts e.thisCpu e.lbCpu ((phase.map LbPhase.label).getD "unknown")]
    else [.lbExit e.ts e.thisCpu e.lbCpu])

def handleIpiEvent (state : UserState) (e : IpiEvent) : List TraceCall :=
  [.ipiSendCpu e.ts e.fromCpu e.targetCpu
    (state.kallsyms.findKallsyms e.callsite).toPointer e.callsite
    (state.kallsyms.findKallsyms e.callback).toPointer e.callback]

/-- The handler of the ring buffer a record is in. -/
def handleRecord (state : UserState) : Record → List TraceCall
  | .rqPelt event => handleRqPeltEvent state.opts event
  | .taskPelt event => handleTaskPeltEvent state.opts event
  | .rqNrRunning event => handleRqNrRunningEvent state.opts event
  | .schedSwitch event => handleSchedSwitchEvent state.opts event
  | .freqIdle event => handleFreqIdleEvent state.opts event
  | .softirq event => handleSoftirqEvent state.opts event
  | .lb event => handleLbEvent state.opts event
  | .ipi event => handleIpiEvent state event

end SchedAnalyzer
