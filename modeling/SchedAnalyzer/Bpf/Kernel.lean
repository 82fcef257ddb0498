import Mathlib.Logic.Basic

/-! # Kernel state read by the BPF programs

Only the fields the programs read. A pointer that a program follows is the
structure it points to, and a pointer it only tests is an `Option` or a `Bool`.
-/

namespace SchedAnalyzer

/-- `enum uclamp_id`. -/
inductive UclampId
  | min
  | max
  deriving DecidableEq, Repr

/-- What the CO-RE relocations resolve to on the running kernel: its version and
which of the fields that come and go between versions exist. -/
structure KernelInfo where
  linuxKernelVersion : Nat
  seHasMyQ : Bool
  cfsRqHasRq : Bool
  taskHasWakeCpu : Bool
  taskHasUclampReq : UclampId → Bool
  taskHasUclamp : UclampId → Bool
  rqHasUclamp : UclampId → Bool
  rqHasAvgRt : Bool
  rqHasAvgDl : Bool
  rqHasAvgIrq : Bool
  rqHasAvgThermal : Bool

/-- `KERNEL_VERSION(a, b, c)`. -/
def kernelVersion (a b c : Nat) : Nat :=
  a * 65536 + b * 256 + min c 255

/-- `struct util_est` of kernels before 6.8. -/
structure UtilEst where
  enqueued : UInt32
  ewma : UInt32

/-- `struct sched_avg`, with the `util_est` of both layouts. -/
structure SchedAvg where
  loadAvg : UInt64
  runnableAvg : UInt64
  utilAvg : UInt64
  utilEst : UInt32
  utilEstPre68 : UtilEst

/-- `struct uclamp_se`. -/
structure UclampSe where
  value : UInt32
  active : Bool

/-- `PID_MAX_LIMIT` of 64-bit kernels. -/
def pidMaxLimit : Nat := 4194304

/-- The pid of a task. -/
structure Pid where
  number : Nat
  le_limit : number ≤ pidMaxLimit
  deriving DecidableEq

/-- The `pid_t` that holds the pid. -/
def Pid.toInt32 (pid : Pid) : Int32 :=
  Int32.ofNat pid.number

theorem Pid.toInt_toInt32 (pid : Pid) : pid.toInt32.toInt = pid.number := by
  have hbound := pid.le_limit
  unfold pidMaxLimit at hbound
  exact Int32.toInt_ofNat_of_lt (by omega)

theorem Pid.toInt32_injective : Function.Injective Pid.toInt32 := by
  intro p q heq
  have hint := congrArg Int32.toInt heq
  rw [p.toInt_toInt32, q.toInt_toInt32] at hint
  cases p
  cases q
  simp only [Pid.mk.injEq]
  exact Int.ofNat.inj hint

/-- `struct task_struct`; `cpu` is the field of `task_struct__old`. -/
structure TaskStruct where
  wakeCpu : Int32
  cpu : Int32
  pid : Pid
  comm : List Char
  uclampReq : UclampId → UclampSe
  uclamp : UclampId → UclampSe

/-- `struct sched_entity`; `task` is the `container_of` it when it is a task. -/
structure SchedEntity where
  myQ : Bool
  avg : SchedAvg
  task : TaskStruct

/-- `struct sched_domain`, without its `parent` link. -/
structure SchedDomain where
  level : Int32
  balanceInterval : UInt32
  busyFactor : UInt32
  deriving DecidableEq, Repr

/-- `struct root_domain`. -/
structure RootDomain where
  overload : Int32
  overutilized : Int32

/-- `struct rq`. `cfsAddr` is `&rq->cfs` and `sd` the chain of `parent` links
from the lowest domain up. -/
structure Rq where
  cpu : Int32
  nrRunning : UInt32
  cfsAddr : UInt64
  cfsIdleHNrRunning : UInt32
  uclamp : UclampId → UInt32
  avgRt : SchedAvg
  avgDl : SchedAvg
  avgIrq : SchedAvg
  avgThermal : SchedAvg
  rd : RootDomain
  misfitTaskLoad : UInt64
  sd : List SchedDomain

/-- `struct cfs_rq`. `addr` is where it lies, `rq` its back pointer and
`container` the `container_of` it for a root runqueue. -/
structure CfsRq where
  addr : UInt64
  rq : Option Rq
  container : Rq
  avg : SchedAvg

/-- `enum cpu_idle_type`. -/
inductive CpuIdleType
  | cpuIdle
  | cpuNotIdle
  | cpuNewlyIdle
  deriving DecidableEq, Repr

/-- A kernel that has every field the programs look for. -/
def KernelInfo.complete (linuxKernelVersion : Nat) : KernelInfo where
  linuxKernelVersion := linuxKernelVersion
  seHasMyQ := true
  cfsRqHasRq := true
  taskHasWakeCpu := true
  taskHasUclampReq _ := true
  taskHasUclamp _ := true
  rqHasUclamp _ := true
  rqHasAvgRt := true
  rqHasAvgDl := true
  rqHasAvgIrq := true
  rqHasAvgThermal := true

/-- Averages of something that never ran. -/
def SchedAvg.zero : SchedAvg :=
  ⟨0, 0, 0, 0, ⟨0, 0⟩⟩

/-- A task without uclamp requests. -/
def TaskStruct.plain (pid : Pid) (comm : String) : TaskStruct where
  wakeCpu := 0
  cpu := 0
  pid := pid
  comm := comm.toList
  uclampReq _ := ⟨0, false⟩
  uclamp _ := ⟨0, false⟩

/-- A runqueue that nothing ran on. -/
def Rq.unused (cpu : Int32) : Rq where
  cpu := cpu
  nrRunning := 0
  cfsAddr := 0
  cfsIdleHNrRunning := 0
  uclamp _ := 0
  avgRt := .zero
  avgDl := .zero
  avgIrq := .zero
  avgThermal := .zero
  rd := ⟨0, 0⟩
  misfitTaskLoad := 0
  sd := []

/-- `entity_is_task`. -/
def entityIsTask (k : KernelInfo) (se : SchedEntity) : Bool :=
  if k.seHasMyQ then !se.myQ else true

/-- `rq_of`. -/
def rqOf (k : KernelInfo) (cfsRq : CfsRq) : Option Rq :=
  if k.cfsRqHasRq then cfsRq.rq else some cfsRq.container

/-- `cfs_rq_is_root`. -/
def cfsRqIsRoot (k : KernelInfo) (cfsRq : CfsRq) : Bool :=
  match rqOf k cfsRq with
  | some rq => rq.cfsAddr == cfsRq.addr
  | none => false

/-- A task's CPU, read under the name the field has on this kernel. -/
def taskCpu (k : KernelInfo) (p : TaskStruct) : Int32 :=
  if k.taskHasWakeCpu then p.wakeCpu else p.cpu

theorem cfsRqIsRoot_eq_true {k : KernelInfo} {cfsRq : CfsRq} :
    cfsRqIsRoot k cfsRq = true ↔ ∃ rq, rqOf k cfsRq = some rq ∧ rq.cfsAddr = cfsRq.addr := by
  unfold cfsRqIsRoot
  cases rqOf k cfsRq <;> simp

end SchedAnalyzer
