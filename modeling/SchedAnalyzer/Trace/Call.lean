import Mathlib.Algebra.Group.Int.Defs
import Mathlib.Algebra.Group.Nat.Defs
import Mathlib.Logic.Basic

/-! # Trace calls

A call of one of the `trace_*` functions, with its arguments. A string argument
is the text it points to, and the sched-domain statistics are the part of the
arrays that `trace_lb_sd_stats` reads.
-/

namespace SchedAnalyzer

/-- The CPU-level counters. -/
inductive CpuSignal
  | loadAvg
  | runnableAvg
  | utilAvg
  | uclampedAvg
  | utilEstEnqueued
  | utilAvgRt
  | utilAvgDl
  | utilAvgIrq
  | loadAvgThermal
  | nrRunning
  deriving DecidableEq, Repr

/-- The task-level counters. -/
inductive TaskSignal
  | loadAvg
  | runnableAvg
  | utilAvg
  | uclampedAvg
  | utilEstEnqueued
  | utilEstEwma
  deriving DecidableEq, Repr

/-- A call, named after the function: `trace_cpu_*`, `trace_task_*` and so on. -/
inductive TraceCall
  | cpu (signal : CpuSignal) (ts : UInt64) (cpu value : Int32)
  | task (signal : TaskSignal) (ts : UInt64) (name : List Char) (pid value : Int32)
  | cpuIdle (ts : UInt64) (cpu state : Int32)
  | cpuIdleMiss (ts : UInt64) (cpu state miss : Int32)
  | lbEntry (ts : UInt64) (thisCpu lbCpu : Int32) (phase : String)
  | lbExit (ts : UInt64) (thisCpu lbCpu : Int32)
  | lbSdStats (ts : UInt64) (cpu : Int32) (levels : List (Int32 × UInt32))
  | lbOverloaded (ts : UInt64) (value : UInt32)
  | lbOverutilized (ts : UInt64) (value : UInt32)
  | lbMisfit (ts : UInt64) (cpu : Int32) (misfitTaskLoad : UInt64)
  | ipiSendCpu (ts : UInt64) (fromCpu targetCpu : Int32) (callsite : Option (List Char))
      (callsitep : UInt64) (callback : Option (List Char)) (callbackp : UInt64)
  deriving DecidableEq, Repr

/-- An `unsigned long` passed as an `int` argument. -/
def toCInt (value : UInt64) : Int32 :=
  value.toUInt32.toInt32

theorem toInt_toCInt {value : UInt64} (hvalue : value.toNat < 2 ^ 31) :
    (toCInt value).toInt = value.toNat := by
  have hmod : value.toUInt32 = UInt32.ofNat value.toNat := by
    apply UInt32.toNat_inj.mp
    simp
  rw [toCInt, hmod, UInt32.toInt32_ofNat']
  exact Int32.toInt_ofNat_of_lt hvalue

end SchedAnalyzer
