import SchedAnalyzer.Session.CpuReadings
import SchedAnalyzer.Session.SlotHistory
import SchedAnalyzer.Session.TaskReset

/-! # What the kernel has for a task-level counter

The value of each counter of a task when a hook runs, stated on the kernel's
structures. In a session of any hooks, the calls for a task are the values its
hooks had under the comm and pid it had then, in order.
-/

namespace SchedAnalyzer

open Foundation Foundation.CString

/-! ## Values of the kernel -/

/-- A clamp of a task: the effective one while it is active, else the requested one. -/
def TaskStruct.clamp? (k : KernelInfo) (p : TaskStruct) (id : UclampId) : Option UInt32 :=
  if k.taskHasUclamp id && (p.uclamp id).active then some (p.uclamp id).value
  else if k.taskHasUclampReq id then some (p.uclampReq id).value
  else none

/-- The averages of a task. -/
def SchedEntity.average? (k : KernelInfo) (se : SchedEntity) : TaskSignal → Option UInt64
  | .loadAvg => some se.avg.loadAvg
  | .runnableAvg => some se.avg.runnableAvg
  | .utilAvg => some se.avg.utilAvg
  | .uclampedAvg =>
      (se.task.clamp? k .min).bind fun lo => (se.task.clamp? k .max).map fun hi =>
        clamp se.avg.utilAvg lo.toUInt64 hi.toUInt64
  | .utilEstEnqueued | .utilEstEwma => none

/-- The estimates of a task. -/
def SchedEntity.estimate? (k : KernelInfo) (se : SchedEntity) : TaskSignal → Option UInt64
  | .utilEstEnqueued => some (maskUtilEst (readUtilEst k se.avg).1)
  | .utilEstEwma => some (readUtilEst k se.avg).2
  | _ => none

/-- A task, and the value it has for a counter. -/
structure TaskReading where
  task : TaskStruct
  value : UInt64

/-- The value that the kernel has for a counter when a hook runs. A task that is freed
has none left. -/
def Hook.taskReading? (k : KernelInfo) (signal : TaskSignal) : Hook → Option TaskReading
  | .peltSe se =>
      if entityIsTask k se then (se.average? k signal).map fun value => ⟨se.task, value⟩ else none
  | .utilEstSe se =>
      if entityIsTask k se then (se.estimate? k signal).map fun value => ⟨se.task, value⟩ else none
  | .schedProcessFree p => some ⟨p, 0⟩
  | _ => none

/-- All values that a hook has for tasks fit an `int`. -/
def Hook.SmallTaskReadings (k : KernelInfo) (hook : Hook) : Prop :=
  ∀ signal, ∀ reading ∈ hook.taskReading? k signal, reading.value.toNat < 2 ^ 31

/-- What a reading adds to the counter of a task. -/
def TaskReading.sample? (reading : TaskReading) (ts : UInt64) (comm : TaskComm) (pid : Pid) :
    Option (UInt64 × Int) :=
  if reading.task.taskComm = comm ∧ reading.task.pid = pid then some (ts, reading.value.toNat)
  else none

/-- What a hook invocation adds to the counter of a task: nothing when its record was
dropped, the option is off or the filters leave the task out. -/
def Firing.taskValue? (k : KernelInfo) (opts : SaOpts) (signal : TaskSignal) (comm : TaskComm)
    (pid : Pid) (f : Firing) : Option (UInt64 × Int) :=
  if f.reserved && opts.isOn signal.option && !ignorePidComm opts pid.toInt32 comm.text then
    (f.hook.taskReading? k signal).bind fun reading => reading.sample? f.now comm pid
  else none

/-- What a call adds to the counter of a task. -/
def TraceCall.taskValue? (signal : TaskSignal) (comm : TaskComm) (pid : Pid) :
    TraceCall → Option (UInt64 × Int)
  | .task signal' ts name pid' value =>
      if signal' = signal ∧ name = comm.text ∧ pid' = pid.toInt32 then some (ts, value.toInt)
      else none
  | _ => none

/-! ## Records -/

/-- The record that a hook submits to the ring buffer of tasks. Whether the task runs is
looked up in the maps, and not reported. -/
def Firing.taskPeltEvent? (k : KernelInfo) (running : SchedSwitchMap) (f : Firing) :
    Option TaskPeltEvent :=
  let slot := reserve f.reserved f.slots.taskPelt
  match f.hook with
  | .peltSe se => handlePeltSe k running f.now se slot
  | .utilEstSe se => handleUtilEstSe k running f.now se slot
  | .schedProcessFree p => handleSchedProcessFree k f.now p slot
  | _ => none

/-- What a record has for a counter. -/
def TaskPeltEvent.value? (e : TaskPeltEvent) (signal : TaskSignal) : Option UInt64 :=
  if (e.fields signal).all (fun field => field != absent) then some (e.value signal) else none

/-- A record tells the task of a hook, and what the kernel has for its counters. -/
structure TaskPeltEvent.Tells (k : KernelInfo) (f : Firing) (p : TaskStruct) (e : TaskPeltEvent) :
    Prop where
  ts : e.ts = f.now
  reserved : f.reserved = true
  pid : e.pid = p.pid.toInt32
  comm : cstr e.comm = p.taskComm.text
  reading : ∀ signal, f.hook.taskReading? k signal = (e.value? signal).map fun value => ⟨p, value⟩

theorem readTaskUclamp_eq (k : KernelInfo) (p : TaskStruct) (id : UclampId) :
    readTaskUclamp k p id = ((p.clamp? k id).map UInt32.toUInt64).getD absent := by
  unfold readTaskUclamp TaskStruct.clamp?
  cases k.taskHasUclamp id && (p.uclamp id).active with
  | true => rfl
  | false => cases k.taskHasUclampReq id <;> rfl

/-- A clamp is reported when the task has one. -/
theorem present_readTaskUclamp (k : KernelInfo) (p : TaskStruct) (id : UclampId) :
    (readTaskUclamp k p id != absent) = (p.clamp? k id).isSome := by
  rw [readTaskUclamp_eq]
  cases p.clamp? k id with
  | none => rfl
  | some value => exact present_of_uint32 value

theorem tells_peltSe {k : KernelInfo} {running : SchedSwitchMap} {f : Firing} {se : SchedEntity}
    {e : TaskPeltEvent} (hhook : f.hook = .peltSe se) (hsmall : f.hook.SmallTaskReadings k)
    (he : f.taskPeltEvent? k running = some e) : e.Tells k f se.task := by
  rw [Firing.taskPeltEvent?, hhook] at he
  rw [hhook] at hsmall
  simp only [handlePeltSe] at he
  split at he
  next htask =>
    obtain ⟨slot, hslot, rfl⟩ := Option.map_eq_some_iff.mp he
    refine ⟨rfl, reserved_of_reserve_eq_some hslot, rfl, cstr_readStr _ _ _, ?_⟩
    have hpresent : ∀ signal value, se.average? k signal = some value →
        (value != absent) = true := by
      intro signal value hvalue
      apply present_of_small
      apply hsmall signal ⟨se.task, value⟩
      simp [Hook.taskReading?, htask, hvalue]
    have hload := hpresent .loadAvg _ rfl
    have hrunnable := hpresent .runnableAvg _ rfl
    have hutil := hpresent .utilAvg _ rfl
    have hmin := present_readTaskUclamp k se.task .min
    have hmax := present_readTaskUclamp k se.task .max
    intro signal
    rw [hhook, Hook.taskReading?, if_pos htask]
    congr 1
    cases signal
    case uclampedAvg =>
      simp only [TaskPeltEvent.value?, TaskPeltEvent.fields, TaskPeltEvent.value, List.all_cons,
        List.all_nil, Bool.and_true, hutil, hmin, hmax, Bool.true_and, SchedEntity.average?]
      rw [readTaskUclamp_eq, readTaskUclamp_eq]
      cases se.task.clamp? k .min <;> cases se.task.clamp? k .max <;> rfl
    all_goals
      simp [TaskPeltEvent.value?, TaskPeltEvent.fields, TaskPeltEvent.value,
        SchedEntity.average?, hload, hrunnable, hutil]
  next => cases he

theorem tells_utilEstSe {k : KernelInfo} {running : SchedSwitchMap} {f : Firing} {se : SchedEntity}
    {e : TaskPeltEvent} (hhook : f.hook = .utilEstSe se)
    (he : f.taskPeltEvent? k running = some e) : e.Tells k f se.task := by
  rw [Firing.taskPeltEvent?, hhook] at he
  simp only [handleUtilEstSe] at he
  split at he
  next htask =>
    obtain ⟨slot, hslot, rfl⟩ := Option.map_eq_some_iff.mp he
    refine ⟨rfl, reserved_of_reserve_eq_some hslot, rfl, cstr_readStr _ _ _, ?_⟩
    have hpresent := present_maskUtilEst (readUtilEst k se.avg).1
    intro signal
    rw [hhook, Hook.taskReading?, if_pos htask]
    congr 1
    cases signal <;>
      simp [TaskPeltEvent.value?, TaskPeltEvent.fields, TaskPeltEvent.value,
        SchedEntity.estimate?, hpresent]
  next => cases he

theorem tells_free {k : KernelInfo} {running : SchedSwitchMap} {f : Firing} {p : TaskStruct}
    {e : TaskPeltEvent} (hhook : f.hook = .schedProcessFree p)
    (he : f.taskPeltEvent? k running = some e) : e.Tells k f p := by
  rw [Firing.taskPeltEvent?, hhook] at he
  simp only [handleSchedProcessFree] at he
  obtain ⟨slot, hslot, rfl⟩ := Option.map_eq_some_iff.mp he
  refine ⟨rfl, reserved_of_reserve_eq_some hslot, rfl, cstr_readStr _ _ _, ?_⟩
  intro signal
  rw [hhook]
  cases signal <;> rfl

/-- No record, no value: it was dropped, or the entity is no task. -/
theorem taskReading?_eq_none_of_no_record {k : KernelInfo} {running : SchedSwitchMap} {f : Firing}
    (htask : f.hook.IsTaskPelt) (hreserved : f.reserved = true)
    (he : f.taskPeltEvent? k running = none) (signal : TaskSignal) :
    f.hook.taskReading? k signal = none := by
  obtain ⟨hook, now, nowNext, thisCpu, reserved, reservedNext, slots⟩ := f
  simp only at htask hreserved
  subst hreserved
  cases hook
  case peltSe se =>
    simp only [Firing.taskPeltEvent?, handlePeltSe, reserve_true] at he
    split at he
    next => cases he
    next hgroup => rw [Hook.taskReading?, if_neg hgroup]
  case utilEstSe se =>
    simp only [Firing.taskPeltEvent?, handleUtilEstSe, reserve_true] at he
    split at he
    next => cases he
    next hgroup => rw [Hook.taskReading?, if_neg hgroup]
  case schedProcessFree p => cases he
  all_goals exact htask.elim

theorem exists_tells {k : KernelInfo} {running : SchedSwitchMap} {f : Firing} {e : TaskPeltEvent}
    (hsmall : f.hook.SmallTaskReadings k) (he : f.taskPeltEvent? k running = some e) :
    ∃ p, e.Tells k f p := by
  cases hhook : f.hook
  case peltSe se => exact ⟨se.task, tells_peltSe hhook hsmall he⟩
  case utilEstSe se => exact ⟨se.task, tells_utilEstSe hhook he⟩
  case schedProcessFree p => exact ⟨p, tells_free hhook he⟩
  all_goals
    rw [Firing.taskPeltEvent?, hhook] at he
    cases he

/-! ## The handler -/

/-- Of the calls for distinct counters, at most one is of a given counter. -/
theorem taskValue?_map_call {signals : List TaskSignal} (hnodup : signals.Nodup) (e : TaskPeltEvent)
    (signal : TaskSignal) (comm : TaskComm) (pid : Pid) :
    (signals.map e.call).filterMap (TraceCall.taskValue? signal comm pid) =
      if signal ∈ signals ∧ cstr e.comm = comm.text ∧ e.pid = pid.toInt32 then
        [(e.ts, (toCInt (e.value signal)).toInt)]
      else [] := by
  induction signals with
  | nil => rfl
  | cons first rest ih =>
      obtain ⟨hfirst, hrest⟩ := List.nodup_cons.mp hnodup
      rw [List.map_cons, List.filterMap_cons, ih hrest]
      by_cases hsame : first = signal
      · subst hsame
        by_cases htask : cstr e.comm = comm.text ∧ e.pid = pid.toInt32 <;>
          simp [TaskPeltEvent.call, TraceCall.taskValue?, htask, hfirst]
      · have hother : signal ≠ first := fun heq => hsame heq.symm
        simp [TaskPeltEvent.call, TraceCall.taskValue?, hsame, hother]

/-- What the handler adds to the counter of a task. -/
theorem taskValue?_handleTaskPeltEvent (opts : SaOpts) (e : TaskPeltEvent) (signal : TaskSignal)
    (comm : TaskComm) (pid : Pid) :
    (handleTaskPeltEvent opts e).filterMap (TraceCall.taskValue? signal comm pid) =
      if ignorePidComm opts e.pid e.comm = false ∧ e.reports opts signal = true ∧
          cstr e.comm = comm.text ∧ e.pid = pid.toInt32 then
        [(e.ts, (toCInt (e.value signal)).toInt)]
      else [] := by
  have hnodup : TaskSignal.all.Nodup := by decide
  rw [handleTaskPeltEvent_eq]
  cases ignorePidComm opts e.pid e.comm with
  | true => simp
  | false =>
      simp only [Bool.false_eq_true, if_false, true_and]
      rw [taskValue?_map_call (hnodup.filter _)]
      simp only [List.mem_filter, signal.mem_all, true_and]

theorem TaskComm.eq_of_text {comm comm' : TaskComm} (htext : comm.text = comm'.text) :
    comm = comm' := by
  cases comm
  cases comm'
  simpa using htext

/-- The record of a task adds what its hook has. -/
theorem taskValue?_record {k : KernelInfo} {opts : SaOpts} {f : Firing} {p : TaskStruct}
    {e : TaskPeltEvent} (htells : e.Tells k f p) (hsmall : f.hook.SmallTaskReadings k)
    (signal : TaskSignal) (comm : TaskComm) (pid : Pid) :
    (handleTaskPeltEvent opts e).filterMap (TraceCall.taskValue? signal comm pid) =
      (f.taskValue? k opts signal comm pid).toList := by
  rw [taskValue?_handleTaskPeltEvent, Firing.taskValue?, htells.reserved, htells.reading,
    htells.ts, htells.comm, htells.pid, Bool.true_and]
  by_cases hsame : p.taskComm = comm ∧ p.pid = pid
  · obtain ⟨rfl, rfl⟩ := hsame
    have hfilter : ignorePidComm opts p.pid.toInt32 e.comm =
        ignorePidComm opts p.pid.toInt32 p.taskComm.text := by
      apply ignorePidComm_congr _ opts
      rw [htells.comm, cstr_of_notMem p.taskComm.nul_notMem]
    rw [hfilter, TaskPeltEvent.reports]
    cases ignorePidComm opts p.pid.toInt32 p.taskComm.text with
    | true => simp
    | false =>
        cases opts.isOn signal.option with
        | false => simp
        | true =>
            have hvalue := hsmall signal
            rw [htells.reading] at hvalue
            unfold TaskPeltEvent.value? at hvalue ⊢
            cases hpresent : (e.fields signal).all fun field => field != absent with
            | false => simp
            | true =>
                rw [hpresent, if_pos rfl] at hvalue
                simp [TaskReading.sample?, toInt_toCInt (hvalue _ rfl)]
  · have hother : ¬ (p.taskComm.text = comm.text ∧ p.pid.toInt32 = pid.toInt32) := by
      rintro ⟨htext, hpid⟩
      exact hsame ⟨TaskComm.eq_of_text htext, Pid.toInt32_injective hpid⟩
    have hnone : ((e.value? signal).map fun value => (⟨p, value⟩ : TaskReading)).bind
        (fun reading => reading.sample? f.now comm pid) = none := by
      cases e.value? signal with
      | none => rfl
      | some value => exact if_neg hsame
    rw [hnone, ite_self, if_neg fun hcond => hother hcond.2.2]
    rfl

/-! ## One hook -/

theorem TraceCall.taskValue?_of_option_ne {call : TraceCall} {signal : TaskSignal}
    (hoption : call.option ≠ signal.option) (comm : TaskComm) (pid : Pid) :
    call.taskValue? signal comm pid = none := by
  cases call with
  | task signal' ts name pid' value =>
      have hother : signal' ≠ signal := fun heq => hoption (congrArg TaskSignal.option heq)
      simp [TraceCall.taskValue?, hother]
  | _ => rfl

theorem step_taskRing {k : KernelInfo} {user : UserState} {f : Firing}
    (htask : f.hook.IsTaskPelt) (maps : BpfMaps) :
    ((tracer k user).step maps f).2 =
      ((f.taskPeltEvent? k maps.schedSwitch).map Record.taskPelt).toList.flatMap
        (handleRecord user) := by
  obtain ⟨hook, now, nowNext, thisCpu, reserved, reservedNext, slots⟩ := f
  cases hook
  case peltSe | utilEstSe | schedProcessFree => rfl
  all_goals exact htask.elim

/-- The programs that have a value of a task are those its option enables. -/
theorem task_option_mem_enabledBy {k : KernelInfo} {hook : Hook} {signal : TaskSignal}
    {reading : TaskReading} (hreading : hook.taskReading? k signal = some reading) :
    signal.option ∈ hook.program.enabledBy ∧ hook.program ∉ alwaysDisabled := by
  cases hook
  case peltSe se =>
    rw [Hook.taskReading?] at hreading
    cases signal <;> simp [SchedEntity.average?] at hreading <;>
      simp [Hook.program, Program.enabledBy, TaskSignal.option, alwaysDisabled]
  case utilEstSe se =>
    rw [Hook.taskReading?] at hreading
    cases signal <;> simp [SchedEntity.estimate?] at hreading <;>
      simp [Hook.program, Program.enabledBy, TaskSignal.option, alwaysDisabled]
  case schedProcessFree p =>
    cases signal <;> simp [Hook.program, Program.enabledBy, TaskSignal.option, alwaysDisabled]
  all_goals cases hreading

/-- The hooks of other ring buffers have no values of tasks, and in a session their
handlers none of the options. -/
theorem no_taskReading_of_other_hook (k : KernelInfo) (signal : TaskSignal) {hook : Hook}
    (htask : ¬ hook.IsTaskPelt) (hswitch : hook.program.ring ≠ .schedSwitch) :
    hook.taskReading? k signal = none ∧ signal.option ∉ hook.program.ring.options := by
  cases hook
  case peltSe | utilEstSe | schedProcessFree => exact absurd trivial htask
  case schedSwitch => exact absurd rfl hswitch
  all_goals
    refine ⟨rfl, ?_⟩
    cases signal <;> simp [Hook.program, Program.ring, Ring.options, TaskSignal.option]

/-- One hook of a session adds to the counter of a task what the kernel has for it. -/
theorem taskValue?_step {k : KernelInfo} {user : UserState} {f : Firing}
    (hsmall : f.hook.SmallTaskReadings k) (signal : TaskSignal) (comm : TaskComm) (pid : Pid)
    (maps : BpfMaps) :
    ((sessionTracer k user).step maps f).2.filterMap (TraceCall.taskValue? signal comm pid) =
      (f.taskValue? k user.opts signal comm pid).toList := by
  cases hautoload : autoload user.opts f.hook.program with
  | false =>
      rw [step_sessionTracer_of_disabled hautoload, Firing.taskValue?]
      split
      next hon =>
        simp only [Bool.and_eq_true] at hon
        cases hreading : f.hook.taskReading? k signal with
        | none => rfl
        | some reading =>
            obtain ⟨henabled, hnever⟩ := task_option_mem_enabledBy hreading
            rcases autoload_of_enabledBy henabled hon.1.2 with h | h
            · rw [hautoload] at h
              cases h
            · exact absurd h hnever
      next => rfl
  | true =>
      rw [step_sessionTracer_of_enabled hautoload]
      by_cases htask : f.hook.IsTaskPelt
      · rw [step_taskRing htask]
        cases he : f.taskPeltEvent? k maps.schedSwitch with
        | none =>
            rw [Firing.taskValue?]
            cases hreserved : f.reserved with
            | false => rfl
            | true =>
                rw [taskReading?_eq_none_of_no_record htask hreserved he]
                simp
        | some e =>
            obtain ⟨p, htells⟩ := exists_tells hsmall he
            simp only [Option.map_some, Option.toList_some, List.flatMap_singleton, handleRecord]
            exact taskValue?_record htells hsmall signal comm pid
      · obtain ⟨hnone, hoption⟩ := no_taskReading_of_other_hook k signal htask
          (isOn_of_autoload hautoload).2.2
        rw [filterMap_step_of_other_ring
          (fun _ h => TraceCall.taskValue?_of_option_ne h comm pid) hoption, Firing.taskValue?,
          hnone, Option.bind_none, ite_self]
        rfl

/-! ## Runs -/

/-- In a session of any hooks, the counter of a task that the filters keep gets the
values that the hooks have for it, one after the other and nothing else. -/
theorem taskValues_session {k : KernelInfo} {user : UserState} {firings : List Firing}
    (hsmall : ∀ f ∈ firings, f.hook.SmallTaskReadings k) (signal : TaskSignal) (comm : TaskComm)
    (pid : Pid) (maps : BpfMaps) :
    ((sessionTracer k user).outputs maps firings).filterMap
        (TraceCall.taskValue? signal comm pid) =
      firings.filterMap (Firing.taskValue? k user.opts signal comm pid) := by
  rw [Transducer.filterMap_outputs_eq_flatMap (sessionTracer k user)
    (fun current f hf => taskValue?_step (hsmall f hf) signal comm pid current) maps]
  exact (List.filterMap_eq_flatMap_toList _ _).symm

end SchedAnalyzer
