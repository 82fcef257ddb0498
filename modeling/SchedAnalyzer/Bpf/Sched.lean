import SchedAnalyzer.Bpf.Pelt

/-! # Scheduler, idle, softirq and IPI programs -/

namespace SchedAnalyzer

open Foundation Foundation.CString

/-- The `softirq_entry` map: when each CPU entered its softirq. -/
abbrev SoftirqEntryMap := BoundedMap Int32 UInt64 8192

def handleSchedUpdateNrRunning (now : UInt64) (rq : Rq) (change : Int32)
    (slot : Option RqNrRunningEvent) : Option RqNrRunningEvent :=
  slot.map fun e =>
    { e with ts := now, cpu := rq.cpu, nrRunning := rq.nrRunning.toInt32, change := change }

/-- The two records of a context switch, for the task that leaves and the one
that comes; each has its own reservation and clock reading. -/
def handleSchedSwitch (k : KernelInfo) (running : SchedSwitchMap) (now nowNext : UInt64)
    (prev next : TaskStruct) (slot slotNext : Option SchedSwitchEvent) :
    SchedSwitchMap × List SchedSwitchEvent :=
  let cpu := taskCpu k prev
  let fill (now : UInt64) (p : TaskStruct) (running : Int32) (e : SchedSwitchEvent) :=
    { e with
      ts := now
      cpu := cpu
      pid := p.pid.toInt32
      comm := readStr e.comm p.comm taskCommLen
      running := running }
  ((running.delete prev.pid.toInt32).update next.pid.toInt32 1,
    (slot.map (fill now prev 0)).toList ++ (slotNext.map (fill nowNext next 1)).toList)

def handleSchedProcessFree (k : KernelInfo) (now : UInt64) (p : TaskStruct)
    (slot : Option TaskPeltEvent) : Option TaskPeltEvent :=
  slot.map fun e =>
    { e with
      ts := now
      cpu := taskCpu k p
      pid := p.pid.toInt32
      comm := readStr e.comm p.comm taskCommLen
      loadAvg := 0
      runnableAvg := 0
      -- `-0` in the source, which is no `-1`.
      utilAvg := -0
      utilEstEnqueued := 0
      utilEstEwma := 0
      uclampMin := 0
      uclampMax := 0
      running := 0 }

/-- The common body of the frequency and idle programs. -/
def submitFreqIdle (now : UInt64) (cpu frequency : UInt32) (idleState idleMiss : Int32)
    (slot : Option FreqIdleEvent) : Option FreqIdleEvent :=
  slot.map fun e =>
    { e with
      ts := now
      cpu := cpu.toInt32
      frequency := frequency
      idleState := idleState
      idleMiss := idleMiss }

def handleCpuFrequency (now : UInt64) (frequency cpu : UInt32) :
    Option FreqIdleEvent → Option FreqIdleEvent :=
  submitFreqIdle now cpu frequency (-1) 0

def handleCpuIdle (now : UInt64) (state cpu : UInt32) :
    Option FreqIdleEvent → Option FreqIdleEvent :=
  submitFreqIdle now cpu 0 state.toInt32 0

def handleCpuIdleMiss (now : UInt64) (cpu state : UInt32) (below : Bool) :
    Option FreqIdleEvent → Option FreqIdleEvent :=
  submitFreqIdle now cpu 0 state.toInt32 (if below then -1 else 1)

/-- The name `copy_softirq` stores for a softirq vector. -/
def softirqName (vecNr : UInt32) : String :=
  ["hi", "timer", "net_tx", "net_rx", "block", "irq_poll", "tasklet", "sched", "hrtimer",
    "rcu"].getD vecNr.toNat "unknown"

/-- `copy_softirq`: all `TASK_COMM_LEN` bytes of the name's array. -/
def copySoftirq (vecNr : UInt32) : List Char :=
  strncpy [] (softirqName vecNr).toList taskCommLen

def handleSoftirqEntry (entries : SoftirqEntryMap) (now : UInt64) (thisCpu : Int32) :
    SoftirqEntryMap :=
  entries.update thisCpu now

def handleSoftirqExit (entries : SoftirqEntryMap) (now : UInt64) (thisCpu : Int32)
    (vecNr : UInt32) (slot : Option SoftirqEvent) : SoftirqEntryMap × Option SoftirqEvent :=
  match entries.lookup thisCpu with
  | none => (entries, none)
  | some entryTs =>
      (entries.delete thisCpu,
        slot.map fun e =>
          { e with
            ts := entryTs
            cpu := thisCpu
            softirq := copySoftirq vecNr
            duration := now - entryTs })

def handleIpiSendCpu (now : UInt64) (thisCpu cpu : Int32) (callsite callback : UInt64)
    (slot : Option IpiEvent) : Option IpiEvent :=
  slot.map fun e =>
    { e with
      ts := now
      fromCpu := thisCpu
      targetCpu := cpu
      callsite := callsite
      callback := callback }

end SchedAnalyzer
