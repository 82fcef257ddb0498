import SchedAnalyzer.Bpf.Events
import SchedAnalyzer.Bpf.Kernel
import SchedAnalyzer.Foundation.Lists
import SchedAnalyzer.Trace.Wrapper

/-! # Task-level track names

A task-level track is named `comm-pid signal`. The signal's text has no blank
and the pid no dash, so the last blank and the last dash before it tell the
parts from each other, whatever the comm. Only the signal may be cut.
-/

namespace SchedAnalyzer

open Foundation.CString Foundation.Lists

/-- A task's name as the kernel keeps it: a string that fits `TASK_COMM_LEN`. -/
structure TaskComm where
  text : List Char
  fits : text.length ≤ taskCommLen - 1
  nul_notMem : nul ∉ text
  deriving DecidableEq

/-- The name that a read of `TASK_COMM_LEN` bytes stores. -/
def TaskStruct.taskComm (p : TaskStruct) : TaskComm where
  text := (cstr p.comm).take (taskCommLen - 1)
  fits := List.length_take_le _ _
  nul_notMem := nul_notMem_take (nul_notMem_cstr p.comm) _

/-- The text each signal's counter is named with. -/
def TaskSignal.format : TaskSignal → String
  | .loadAvg => "load_avg"
  | .runnableAvg => "runnable_avg"
  | .utilAvg => "util_avg"
  | .uclampedAvg => "uclamped_avg"
  | .utilEstEnqueued => "util_est.enqueued"
  | .utilEstEwma => "util_est.ewma"

/-- The track of a task's signal. -/
def TaskSignal.track (signal : TaskSignal) (comm : TaskComm) (pid : Pid) : List Char :=
  taskTrackName signal.format comm.text pid.toInt32

/-- A call of a task-level counter adds one value to its track. -/
theorem TaskSignal.run_task (signal : TaskSignal) (ts : UInt64) (name : List Char)
    (pid value : Int32) :
    (TraceCall.task signal ts name pid value).run =
      [.counter "pelt-task" (taskTrackName signal.format name pid) ts value.toInt] := by
  cases signal <;> rfl

/-- The parts of a name in front of the signal. -/
def taskPrefix (comm : TaskComm) (pid : Pid) : List Char :=
  comm.text ++ '-' :: formatNat pid.number

theorem length_taskPrefix (comm : TaskComm) (pid : Pid) :
    (taskPrefix comm pid).length = comm.text.length + 1 + (formatNat pid.number).length := by
  rw [taskPrefix, List.length_append, List.length_cons]
  omega

theorem length_formatPid_le (pid : Pid) : (formatNat pid.number).length ≤ 7 := by
  apply formatNat_length_le (by decide)
  have hlimit := pid.le_limit
  unfold pidMaxLimit at hlimit
  omega

/-- The prefix always fits the buffer, with at least seven characters to spare. -/
theorem length_taskPrefix_le (comm : TaskComm) (pid : Pid) :
    (taskPrefix comm pid).length ≤ 23 := by
  have hpid := length_formatPid_le pid
  have hcomm := comm.fits
  simp only [taskCommLen] at hcomm
  rw [length_taskPrefix]
  omega

/-- The buffer cuts the signal only. -/
theorem TaskSignal.track_eq (signal : TaskSignal) (comm : TaskComm) (pid : Pid) :
    signal.track comm pid =
      taskPrefix comm pid ++
        ' ' :: signal.format.toList.take (30 - (taskPrefix comm pid).length) := by
  have hlen := length_taskPrefix_le comm pid
  have htext : signal.track comm pid =
      snprintf 32 (taskPrefix comm pid ++ ' ' :: signal.format.toList) := by
    simp [track, taskTrackName, trackName, taskPrefix, pid.toInt_toInt32]
  rw [htext, snprintf_append_cons (by omega)]

theorem TaskSignal.blank_notMem_format (signal : TaskSignal) : ' ' ∉ signal.format.toList := by
  cases signal <;> decide

/-- Whatever is cut, a name tells the comm and the pid, and what is left of the signal. -/
theorem TaskSignal.track_inj {signal signal' : TaskSignal} {comm comm' : TaskComm}
    {pid pid' : Pid} (heq : signal.track comm pid = signal'.track comm' pid') :
    comm = comm' ∧ pid = pid' ∧
      signal.format.toList.take (30 - (taskPrefix comm pid).length) =
        signal'.format.toList.take (30 - (taskPrefix comm pid).length) := by
  rw [track_eq, track_eq] at heq
  obtain ⟨hhead, hsignal⟩ := append_cons_inj_of_notMem_tail
    (fun hmem => signal.blank_notMem_format (List.mem_of_mem_take hmem))
    (fun hmem => signal'.blank_notMem_format (List.mem_of_mem_take hmem)) heq
  rw [← hhead] at hsignal
  obtain ⟨hcomm, hnumber⟩ := append_cons_inj_of_notMem_tail
    (notMem_formatNat (by decide)) (notMem_formatNat (by decide)) hhead
  refine ⟨?_, ?_, hsignal⟩
  · cases comm
    cases comm'
    simpa using hcomm
  · cases pid
    cases pid'
    simpa using formatNat_injective hnumber

end SchedAnalyzer
