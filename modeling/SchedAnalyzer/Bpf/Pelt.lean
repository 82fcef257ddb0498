import SchedAnalyzer.Bpf.Events
import SchedAnalyzer.Bpf.Kernel
import SchedAnalyzer.Foundation.BoundedMap
import SchedAnalyzer.Foundation.CString

/-! # The PELT programs

Each program fills the slot it reserved, field by field as the source does: a
field that a program does not store keeps what the slot held. A failed
reservation is `none`, and so is an invocation that submits nothing.
-/

namespace SchedAnalyzer

open Foundation Foundation.CString

/-- The `sched_switch` map: the tasks that are running. -/
abbrev SchedSwitchMap := BoundedMap Int32 Int32 8192

/-- `UTIL_AVG_UNCHANGED`. -/
def utilAvgUnchanged : UInt32 := 0x80000000

/-- `util_est_enqueued & ~UTIL_AVG_UNCHANGED`, with the mask widened from
`unsigned int`. -/
def maskUtilEst (enqueued : UInt64) : UInt64 :=
  enqueued &&& (~~~ utilAvgUnchanged).toUInt64

/-- The enqueued and ewma estimates, under the layout of this kernel. -/
def readUtilEst (k : KernelInfo) (avg : SchedAvg) : UInt64 × UInt64 :=
  if k.linuxKernelVersion < kernelVersion 6 8 0 then
    (avg.utilEstPre68.enqueued.toUInt64, avg.utilEstPre68.ewma.toUInt64)
  -- From 6.8 on there is one word for the enqueued estimate and none for the other.
  else (avg.utilEst.toUInt64, 0)

/-- A task's uclamp value: the requested one, replaced by the effective one
while that is active. -/
def readTaskUclamp (k : KernelInfo) (p : TaskStruct) (id : UclampId) : UInt64 :=
  let requested := if k.taskHasUclampReq id then (p.uclampReq id).value.toUInt64 else absent
  if k.taskHasUclamp id && (p.uclamp id).active then (p.uclamp id).value.toUInt64
  else requested

/-- A runqueue's uclamp value. -/
def readRqUclamp (k : KernelInfo) (rq : Rq) (id : UclampId) : UInt64 :=
  if k.rqHasUclamp id then (rq.uclamp id).toUInt64 else absent

/-- Whether `bpf_map_lookup_elem(&sched_switch, &pid)` finds the task. -/
def isRunning (running : SchedSwitchMap) (p : TaskStruct) : Int32 :=
  if (running.lookup p.pid.toInt32).isSome then 1 else 0

def handlePeltSe (k : KernelInfo) (running : SchedSwitchMap) (now : UInt64) (se : SchedEntity)
    (slot : Option TaskPeltEvent) : Option TaskPeltEvent :=
  if entityIsTask k se then
    slot.map fun e =>
      { e with
        ts := now
        cpu := taskCpu k se.task
        pid := se.task.pid.toInt32
        comm := readStr e.comm se.task.comm taskCommLen
        loadAvg := se.avg.loadAvg
        runnableAvg := se.avg.runnableAvg
        utilAvg := se.avg.utilAvg
        utilEstEnqueued := absent
        utilEstEwma := absent
        uclampMin := readTaskUclamp k se.task .min
        uclampMax := readTaskUclamp k se.task .max
        running := isRunning running se.task }
  else none

def handleUtilEstSe (k : KernelInfo) (running : SchedSwitchMap) (now : UInt64) (se : SchedEntity)
    (slot : Option TaskPeltEvent) : Option TaskPeltEvent :=
  if entityIsTask k se then
    slot.map fun e =>
      { e with
        ts := now
        cpu := taskCpu k se.task
        pid := se.task.pid.toInt32
        comm := readStr e.comm se.task.comm taskCommLen
        loadAvg := absent
        runnableAvg := absent
        utilAvg := absent
        utilEstEnqueued := maskUtilEst (readUtilEst k se.avg).1
        utilEstEwma := (readUtilEst k se.avg).2
        uclampMin := absent
        uclampMax := absent
        running := isRunning running se.task }
  else none

def handlePeltCfs (k : KernelInfo) (now : UInt64) (cfsRq : CfsRq)
    (slot : Option RqPeltEvent) : Option RqPeltEvent :=
  if cfsRqIsRoot k cfsRq then do
    let rq ← rqOf k cfsRq
    let e ← slot
    return { e with
      ts := now
      cpu := rq.cpu
      type := PeltType.cfs.code
      loadAvg := cfsRq.avg.loadAvg
      runnableAvg := cfsRq.avg.runnableAvg
      utilAvg := cfsRq.avg.utilAvg
      utilEstEnqueued := absent
      utilEstEwma := absent
      uclampMin := readRqUclamp k rq .min
      uclampMax := readRqUclamp k rq .max }
  else none

/-- The only producer of `rq_pelt` records that does not store `type`. -/
def handleUtilEstCfs (k : KernelInfo) (now : UInt64) (cfsRq : CfsRq)
    (slot : Option RqPeltEvent) : Option RqPeltEvent :=
  if cfsRqIsRoot k cfsRq then do
    let rq ← rqOf k cfsRq
    let e ← slot
    return { e with
      ts := now
      cpu := rq.cpu
      loadAvg := absent
      runnableAvg := absent
      utilAvg := absent
      utilEstEnqueued := maskUtilEst (readUtilEst k cfsRq.avg).1
      utilEstEwma := (readUtilEst k cfsRq.avg).2
      uclampMin := absent
      uclampMax := absent }
  else none

/-- The common body of the programs for one scheduling class: nothing when the
kernel lacks the class's `sched_avg`, else a record of its load and utilisation. -/
def submitClassPelt (fieldExists : Bool) (type : PeltType) (loadAvg utilAvg : UInt64)
    (now : UInt64) (rq : Rq) (slot : Option RqPeltEvent) : Option RqPeltEvent :=
  if fieldExists then
    slot.map fun e =>
      { e with
        ts := now
        cpu := rq.cpu
        type := type.code
        loadAvg := loadAvg
        runnableAvg := absent
        utilAvg := utilAvg
        utilEstEnqueued := absent
        utilEstEwma := absent
        uclampMin := absent
        uclampMax := absent }
  else none

def handlePeltRt (k : KernelInfo) (now : UInt64) (rq : Rq) :
    Option RqPeltEvent → Option RqPeltEvent :=
  submitClassPelt k.rqHasAvgRt .rt absent rq.avgRt.utilAvg now rq

def handlePeltDl (k : KernelInfo) (now : UInt64) (rq : Rq) :
    Option RqPeltEvent → Option RqPeltEvent :=
  submitClassPelt k.rqHasAvgDl .dl absent rq.avgDl.utilAvg now rq

def handlePeltIrq (k : KernelInfo) (now : UInt64) (rq : Rq) :
    Option RqPeltEvent → Option RqPeltEvent :=
  submitClassPelt k.rqHasAvgIrq .irq absent rq.avgIrq.utilAvg now rq

def handlePeltThermal (k : KernelInfo) (now : UInt64) (rq : Rq) :
    Option RqPeltEvent → Option RqPeltEvent :=
  submitClassPelt k.rqHasAvgThermal .thermal rq.avgThermal.loadAvg absent now rq

end SchedAnalyzer
