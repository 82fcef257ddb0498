import Mathlib.Logic.Function.Basic

/-! # Ring-buffer records

The records of `sched-analyzer-events.h`. A reserved slot keeps the bytes of an
earlier record, so the enumeration fields are raw codes: a stale slot may hold
any of them.
-/

namespace SchedAnalyzer

/-- `TASK_COMM_LEN`. -/
def taskCommLen : Nat := 16

/-- An `unsigned long` field set to `-1` marks a value the record does not carry. -/
def absent : UInt64 := 0xFFFFFFFFFFFFFFFF

/-- The same mark in an `unsigned int` field. -/
def absent32 : UInt32 := 0xFFFFFFFF

/-- `enum pelt_type`. -/
inductive PeltType
  | cfs
  | rt
  | dl
  | irq
  | thermal
  deriving DecidableEq, Repr

namespace PeltType

def code : PeltType → UInt32
  | .cfs => 0
  | .rt => 1
  | .dl => 2
  | .irq => 3
  | .thermal => 4

/-- The enumerator a stored code stands for, if any. -/
def ofCode (raw : UInt32) : Option PeltType :=
  [cfs, rt, dl, irq, thermal].find? (fun type => type.code == raw)

@[simp] theorem ofCode_code (type : PeltType) : ofCode type.code = some type := by
  cases type <;> rfl

@[simp] theorem code_beq_code (type type' : PeltType) :
    (type.code == type'.code) = decide (type = type') := by
  cases type <;> cases type' <;> rfl

end PeltType

/-- `struct rq_pelt_event`. -/
structure RqPeltEvent where
  ts : UInt64
  cpu : Int32
  type : UInt32
  loadAvg : UInt64
  runnableAvg : UInt64
  utilAvg : UInt64
  utilEstEnqueued : UInt64
  utilEstEwma : UInt64
  uclampMin : UInt64
  uclampMax : UInt64
  deriving DecidableEq, Repr

/-- `struct task_pelt_event`. -/
structure TaskPeltEvent where
  ts : UInt64
  cpu : Int32
  pid : Int32
  comm : List Char
  loadAvg : UInt64
  runnableAvg : UInt64
  utilAvg : UInt64
  utilEstEnqueued : UInt64
  utilEstEwma : UInt64
  uclampMin : UInt64
  uclampMax : UInt64
  running : Int32
  deriving DecidableEq, Repr

/-- `struct rq_nr_running_event`. -/
structure RqNrRunningEvent where
  ts : UInt64
  cpu : Int32
  nrRunning : Int32
  change : Int32
  deriving DecidableEq, Repr

/-- `struct sched_switch_event`. -/
structure SchedSwitchEvent where
  ts : UInt64
  cpu : Int32
  pid : Int32
  comm : List Char
  running : Int32
  deriving DecidableEq, Repr

/-- `struct freq_idle_event`. -/
structure FreqIdleEvent where
  ts : UInt64
  cpu : Int32
  frequency : UInt32
  idleState : Int32
  idleMiss : Int32
  deriving DecidableEq, Repr

/-- `struct softirq_event`. -/
structure SoftirqEvent where
  ts : UInt64
  cpu : Int32
  softirq : List Char
  duration : UInt64
  deriving DecidableEq, Repr

/-- `enum lb_phases`. -/
inductive LbPhase
  | nohzIdleBalance
  | runRebalanceDomains
  | rebalanceDomains
  | balanceFair
  | pickNextTaskFair
  | newidleBalance
  | loadBalance
  deriving DecidableEq, Repr

namespace LbPhase

def code : LbPhase → UInt32
  | .nohzIdleBalance => 0
  | .runRebalanceDomains => 1
  | .rebalanceDomains => 2
  | .balanceFair => 3
  | .pickNextTaskFair => 4
  | .newidleBalance => 5
  | .loadBalance => 6

def ofCode (raw : UInt32) : Option LbPhase :=
  [nohzIdleBalance, runRebalanceDomains, rebalanceDomains, balanceFair, pickNextTaskFair,
    newidleBalance, loadBalance].find? (fun phase => phase.code == raw)

@[simp] theorem ofCode_code (phase : LbPhase) : ofCode phase.code = some phase := by
  cases phase <;> rfl

end LbPhase

/-- `MAX_SD_LEVELS`. -/
def maxSdLevels : Nat := 10

/-- `struct lb_sd_stats`: two adjacent arrays of `MAX_SD_LEVELS` words. -/
structure LbSdStats where
  cpu : Int32
  level : Nat → Int32
  balanceInterval : Nat → UInt32

namespace LbSdStats

/-- The store `level[i] = value`. The word after the last level is the first
word of `balance_interval`. -/
def storeLevel (stats : LbSdStats) (i : Nat) (value : Int32) : LbSdStats :=
  if i < maxSdLevels then
    { stats with level := Function.update stats.level i value }
  else if i < 2 * maxSdLevels then
    { stats with
      balanceInterval :=
        Function.update stats.balanceInterval (i - maxSdLevels) value.toUInt32 }
  else stats

/-- The store `balance_interval[i] = value`. The word after the array is the
padding at the end of `struct lb_event`, which nobody reads. -/
def storeBalanceInterval (stats : LbSdStats) (i : Nat) (value : UInt32) : LbSdStats :=
  if i < maxSdLevels then
    { stats with balanceInterval := Function.update stats.balanceInterval i value }
  else stats

end LbSdStats

/-- `struct lb_event`. -/
structure LbEvent where
  ts : UInt64
  thisCpu : Int32
  lbCpu : Int32
  phase : UInt32
  entry : Bool
  overloaded : UInt32
  overutilized : UInt32
  misfitTaskLoad : UInt64
  sdStats : LbSdStats

/-- `struct ipi_event`. -/
structure IpiEvent where
  ts : UInt64
  fromCpu : Int32
  targetCpu : Int32
  callsite : UInt64
  callback : UInt64
  deriving DecidableEq, Repr

/-- A submitted record, under the ring buffer it is submitted to. -/
inductive Record
  | rqPelt (event : RqPeltEvent)
  | taskPelt (event : TaskPeltEvent)
  | rqNrRunning (event : RqNrRunningEvent)
  | schedSwitch (event : SchedSwitchEvent)
  | freqIdle (event : FreqIdleEvent)
  | softirq (event : SoftirqEvent)
  | lb (event : LbEvent)
  | ipi (event : IpiEvent)

end SchedAnalyzer
