import SchedAnalyzer.Post.SaTrack
import SchedAnalyzer.Trace.TaskNames

/-! # Task-level tracks in sched-analyzer-pp

A task's tracks are told apart, and found again, by the text after the last
blank of their names. A long comm and a large pid leave too little room for it.
-/

namespace SchedAnalyzer

open Foundation.CString Foundation.Lists Foundation.SqlLike

/-- The option that shows a signal of tasks. No option asks for the ewma. -/
def TaskSignal.ppSignal : TaskSignal → Option PpSignal
  | .loadAvg => some .loadAvg
  | .runnableAvg => some .runnableAvg
  | .utilAvg => some .utilAvg
  | .uclampedAvg => some .uclampedAvg
  | .utilEstEnqueued => some .utilEst
  | .utilEstEwma => none

/-- A track's name tells its task and signal, and ends with the signal's text,
where the query looks for it. -/
structure TaskTrackNamed (collation : Collation) (comm : TaskComm) (pid : Pid)
    (signal : TaskSignal) : Prop where
  ends : (' ' :: signal.format.toList).IsSuffix (signal.track comm pid)
  found : ∀ option ∈ signal.ppSignal,
    like collation ('%' :: ' ' :: option.pattern) (signal.track comm pid) = true
  determines : ∀ comm' pid' signal', TaskSignal.track signal' comm' pid' = signal.track comm pid →
    comm' = comm ∧ pid' = pid ∧ signal' = signal

/-- No signal's text starts with that of another. -/
theorem TaskSignal.eq_of_prefix {signal signal' : TaskSignal}
    (hstart : signal.format.toList <+: signal'.format.toList) : signal = signal' := by
  revert hstart
  cases signal <;> cases signal' <;> decide

/-- The pattern of an option takes the whole text of its signal. -/
theorem TaskSignal.like_format (collation : Collation) {signal : TaskSignal} {option : PpSignal}
    (hoption : option ∈ signal.ppSignal) :
    like collation option.pattern signal.format.toList = true := by
  cases signal <;> simp only [ppSignal, Option.mem_def, Option.some.injEq, reduceCtorEq] at hoption
  all_goals
    subst hoption
    cases collation <;> decide

/-- With room for the whole signal nothing is cut. -/
theorem TaskSignal.track_of_fits {signal : TaskSignal} {comm : TaskComm} {pid : Pid}
    (hfits : (taskPrefix comm pid).length + 1 + signal.format.toList.length ≤ 31) :
    signal.track comm pid = taskPrefix comm pid ++ ' ' :: signal.format.toList := by
  rw [track_eq, List.take_of_length_le (by omega)]

/-- The name of a track does its work exactly when the comm, the pid and the
signal fit the buffer together. -/
theorem taskTrackNamed_iff (collation : Collation) (comm : TaskComm) (pid : Pid)
    (signal : TaskSignal) :
    TaskTrackNamed collation comm pid signal ↔
      comm.text.length + (formatNat pid.number).length + 2 + signal.format.toList.length ≤ 31 := by
  have hlen := length_taskPrefix comm pid
  constructor
  · intro hnamed
    -- The text after the last blank is the whole signal only if nothing was cut.
    obtain ⟨head, hhead⟩ := hnamed.ends
    rw [TaskSignal.track_eq] at hhead
    obtain ⟨-, htext⟩ := append_cons_inj_of_notMem_tail signal.blank_notMem_format
      (fun hmem => signal.blank_notMem_format (List.mem_of_mem_take hmem)) hhead
    have hcut := congrArg List.length htext
    rw [List.length_take] at hcut
    have hpos : 0 < signal.format.toList.length := by cases signal <;> decide
    omega
  · intro hfits
    have hname : signal.track comm pid = taskPrefix comm pid ++ ' ' :: signal.format.toList :=
      TaskSignal.track_of_fits (by omega)
    refine ⟨?_, ?_, ?_⟩
    · rw [hname]
      exact List.suffix_append _ _
    · intro option hoption
      rw [hname]
      exact like_percent_append _
        (like_blank_cons.mpr ⟨rfl, TaskSignal.like_format collation hoption⟩)
    · intro comm' pid' signal' heq
      -- The other name may be cut, but a cut signal is no signal.
      obtain ⟨rfl, rfl, hsignal⟩ := TaskSignal.track_inj heq.symm
      refine ⟨rfl, rfl, ?_⟩
      rw [List.take_of_length_le (by omega)] at hsignal
      exact (TaskSignal.eq_of_prefix (hsignal ▸ List.take_prefix _ _)).symm

/-- The longest comm there is. -/
def longComm : TaskComm where
  text := "kworker/u16:3-e".toList
  fits := by decide
  nul_notMem := by decide

/-- The largest pid there is. -/
def largestPid : Pid :=
  ⟨4194304, by decide⟩

/-- Two signals of a task with the longest comm and the largest pid share a track. -/
theorem taskTrackNamed_fails_for_long_name :
    ¬ ∀ (comm : TaskComm) (pid : Pid) (signal : TaskSignal),
      TaskTrackNamed .asciiNoCase comm pid signal := by
  intro hnamed
  obtain ⟨-, -, hsignal⟩ := (hnamed longComm largestPid .utilEstEwma).determines longComm
    largestPid .utilEstEnqueued (by decide)
  exact absurd hsignal (by decide)

end SchedAnalyzer
