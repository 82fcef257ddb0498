import SchedAnalyzer.User.Handlers
import SchedAnalyzer.User.Signals

/-! # Task-level samples

What a `task_pelt` record stands for, signal by signal: a value is reported when
its option is on and its field is not marked absent.
-/

namespace SchedAnalyzer

open Foundation.CString

namespace TaskSignal

/-- The signals, in the order they are reported. -/
def all : List TaskSignal :=
  [loadAvg, runnableAvg, utilAvg, uclampedAvg, utilEstEnqueued, utilEstEwma]

theorem mem_all (signal : TaskSignal) : signal ∈ all := by
  cases signal <;> decide

end TaskSignal

namespace TaskPeltEvent

variable (e : TaskPeltEvent)

/-- The fields that must be present for a signal. -/
def fields : TaskSignal → List UInt64
  | .loadAvg => [e.loadAvg]
  | .runnableAvg => [e.runnableAvg]
  | .utilAvg => [e.utilAvg]
  | .uclampedAvg => [e.utilAvg, e.uclampMin, e.uclampMax]
  | .utilEstEnqueued | .utilEstEwma => [e.utilEstEnqueued]

/-- The value of a signal. -/
def value : TaskSignal → UInt64
  | .loadAvg => e.loadAvg
  | .runnableAvg => e.runnableAvg
  | .utilAvg => e.utilAvg
  | .uclampedAvg => clamp e.utilAvg e.uclampMin e.uclampMax
  | .utilEstEnqueued => e.utilEstEnqueued
  | .utilEstEwma => e.utilEstEwma

/-- Whether a signal is reported. -/
def reports (opts : SaOpts) (signal : TaskSignal) : Bool :=
  opts.isOn signal.option && (e.fields signal).all (fun field => field != absent)

/-- The call that reports a signal. -/
def call (signal : TaskSignal) : TraceCall :=
  .task signal e.ts (cstr e.comm) e.pid (toCInt (e.value signal))

end TaskPeltEvent

theorem map_filter_eq_flatMap_callsIf (signals : List TaskSignal) (select : TaskSignal → Bool)
    (call : TaskSignal → TraceCall) :
    (signals.filter select).map call =
      signals.flatMap fun signal => callsIf (select signal) [call signal] := by
  induction signals with
  | nil => rfl
  | cons signal rest ih =>
      rw [List.flatMap_cons, ← ih, List.filter_cons]
      cases select signal <;> rfl

/-- Nested conditions, call by call. -/
theorem callsIf_cons_callsIf (outer inner : Bool) (first second : TraceCall) :
    callsIf outer (first :: callsIf inner [second]) =
      callsIf outer [first] ++ callsIf (outer && inner) [second] := by
  cases outer <;> rfl

theorem callsIf_pair (condition : Bool) (first second : TraceCall) :
    callsIf condition [first, second] =
      callsIf condition [first] ++ callsIf condition [second] := by
  cases condition <;> rfl

/-- The handler reports the signals one after the other, unless the task is ignored. -/
theorem handleTaskPeltEvent_eq (opts : SaOpts) (e : TaskPeltEvent) :
    handleTaskPeltEvent opts e =
      if ignorePidComm opts e.pid e.comm then []
      else (TaskSignal.all.filter (e.reports opts)).map e.call := by
  unfold handleTaskPeltEvent
  split
  · rfl
  · rw [map_filter_eq_flatMap_callsIf]
    simp only [TaskSignal.all, List.flatMap_cons, List.flatMap_nil, List.append_nil,
      TaskPeltEvent.reports, TaskPeltEvent.fields, TaskPeltEvent.call, TaskPeltEvent.value,
      TaskSignal.option, SaOpts.isOn, List.all_cons, List.all_nil, Bool.and_true,
      callsIf_cons_callsIf, callsIf_pair,
      Bool.and_assoc, List.append_assoc]

theorem TaskPeltEvent.isOn_of_reports {opts : SaOpts} {e : TaskPeltEvent} {signal : TaskSignal}
    (hreports : e.reports opts signal = true) : opts.isOn signal.option = true := by
  rw [TaskPeltEvent.reports, Bool.and_eq_true] at hreports
  exact hreports.1

theorem mem_handleTaskPeltEvent {opts : SaOpts} {e : TaskPeltEvent} {call : TraceCall}
    (hcall : call ∈ handleTaskPeltEvent opts e) :
    ∃ signal, e.reports opts signal = true ∧ call = e.call signal := by
  rw [handleTaskPeltEvent_eq] at hcall
  split at hcall
  · exact absurd hcall List.not_mem_nil
  · obtain ⟨signal, hsignal, rfl⟩ := List.mem_map.mp hcall
    exact ⟨signal, (List.mem_filter.mp hsignal).2, rfl⟩

theorem mem_flatMap_taskPelt {state : UserState} {slot : Option TaskPeltEvent}
    {call : TraceCall} :
    call ∈ (slot.map Record.taskPelt).toList.flatMap (handleRecord state) ↔
      ∃ e, slot = some e ∧ call ∈ handleTaskPeltEvent state.opts e := by
  cases slot <;> simp [handleRecord]

end SchedAnalyzer
