import SchedAnalyzer.User.Main
import SchedAnalyzer.User.TaskPelt

/-! # Which options let which programs report

Some calls are gated by the handler, some only by the programs that `main`
leaves enabled. The two must agree: a call is made only for an option that is
on, and the programs whose records the branch of such an option takes are
enabled.
-/

namespace SchedAnalyzer

open Foundation

/-! ## What gating asks for -/

/-- The handler branch of an option takes records of a program: some record of
the program makes it emit a call of that option. -/
def Consumes (option : SaOption) (program : Program) : Prop :=
  ∃ k state maps f, f.hook.program = program ∧
    ∃ call ∈ ((tracer k state).step maps f).2, call.option = option

/-- Options, handlers and enabled programs agree. -/
structure GatingAgrees (opts : SaOpts) : Prop where
  calls_on : ∀ k state maps run, state.opts = opts →
    ∀ call ∈ (sessionTracer k state).outputs maps run, opts.isOn call.option = true
  consumed_enabled : ∀ option program, opts.isOn option = true → Consumes option program →
    autoload opts program = true ∨ program ∈ alwaysDisabled

/-! ## Calls of the handlers -/

/-- Whether the CPU-level branch of a signal takes a record. -/
def RqPeltEvent.carries (e : RqPeltEvent) : CpuSignal → Bool
  | .loadAvg => e.loadAvg != absent
  | .runnableAvg => e.runnableAvg != absent
  | .utilAvg | .uclampedAvg => e.utilAvg != absent && PeltType.ofCode e.type == some .cfs
  | .utilAvgRt => e.utilAvg != absent && PeltType.ofCode e.type == some .rt
  | .utilAvgDl => e.utilAvg != absent && PeltType.ofCode e.type == some .dl
  | .utilAvgIrq => e.utilAvg != absent && PeltType.ofCode e.type == some .irq
  | .loadAvgThermal => e.type == PeltType.thermal.code
  | .utilEstEnqueued => e.utilEstEnqueued != absent
  | .nrRunning => false

theorem mem_rqUtilAvgCalls {opts : SaOpts} {e : RqPeltEvent} {call : TraceCall}
    (hcall : call ∈ rqUtilAvgCalls opts e) (hutil : (e.utilAvg != absent) = true) :
    ∃ signal value, call = .cpu signal e.ts e.cpu value ∧
      opts.isOn signal.option = true ∧ e.carries signal = true := by
  unfold rqUtilAvgCalls at hcall
  split at hcall
  next htype =>
    simp only [mem_callsIf, List.mem_cons] at hcall
    obtain ⟨hopt, rfl | ⟨-, rfl | hnil⟩⟩ := hcall
    · exact ⟨.utilAvg, _, rfl, hopt, by simp [RqPeltEvent.carries, htype, hutil]⟩
    · exact ⟨.uclampedAvg, _, rfl, hopt, by simp [RqPeltEvent.carries, htype, hutil]⟩
    · exact absurd hnil List.not_mem_nil
  next htype =>
    obtain ⟨hopt, hmem⟩ := mem_callsIf.mp hcall
    exact ⟨.utilAvgRt, _, List.mem_singleton.mp hmem, hopt,
      by simp [RqPeltEvent.carries, htype, hutil]⟩
  next htype =>
    obtain ⟨hopt, hmem⟩ := mem_callsIf.mp hcall
    exact ⟨.utilAvgDl, _, List.mem_singleton.mp hmem, hopt,
      by simp [RqPeltEvent.carries, htype, hutil]⟩
  next htype =>
    obtain ⟨hopt, hmem⟩ := mem_callsIf.mp hcall
    exact ⟨.utilAvgIrq, _, List.mem_singleton.mp hmem, hopt,
      by simp [RqPeltEvent.carries, htype, hutil]⟩
  next => exact absurd hcall List.not_mem_nil

/-- A call of the runqueue handler is made for an option that is on and a record
its branch takes. -/
theorem mem_handleRqPeltEvent {opts : SaOpts} {e : RqPeltEvent} {call : TraceCall}
    (hcall : call ∈ handleRqPeltEvent opts e) :
    ∃ signal value, call = .cpu signal e.ts e.cpu value ∧
      opts.isOn signal.option = true ∧ e.carries signal = true := by
  simp only [handleRqPeltEvent, List.mem_append, mem_callsIf, List.mem_singleton,
    Bool.and_eq_true] at hcall
  rcases hcall with (((⟨⟨hopt, hload⟩, rfl⟩ | ⟨⟨hopt, hrunnable⟩, rfl⟩) |
    ⟨⟨htype, hopt⟩, rfl⟩) | ⟨hutil, hmem⟩) | ⟨⟨hopt, hest⟩, rfl⟩
  · exact ⟨.loadAvg, _, rfl, hopt, hload⟩
  · exact ⟨.runnableAvg, _, rfl, hopt, hrunnable⟩
  · exact ⟨.loadAvgThermal, _, rfl, hopt, htype⟩
  · exact mem_rqUtilAvgCalls hmem hutil
  · exact ⟨.utilEstEnqueued, _, rfl, hopt, hest⟩

theorem option_of_mem_handleLbEvent (opts : SaOpts) {e : LbEvent} {call : TraceCall}
    (hcall : call ∈ handleLbEvent opts e) : call.option = .loadBalance := by
  simp only [handleLbEvent, List.mem_append, mem_callsIf, List.mem_singleton] at hcall
  rcases hcall with (((⟨-, rfl⟩ | ⟨-, rfl⟩) | ⟨-, rfl⟩) | ⟨-, rfl⟩) | hslice
  · rfl
  · rfl
  · rfl
  · rfl
  · split at hslice <;> rw [List.mem_singleton] at hslice <;> subst hslice <;> rfl

theorem option_of_mem_handleIpiEvent {state : UserState} {e : IpiEvent} {call : TraceCall}
    (hcall : call ∈ handleIpiEvent state e) : call.option = .ipi := by
  rw [handleIpiEvent, List.mem_singleton] at hcall
  subst hcall
  rfl

theorem mem_handleFreqIdleEvent {opts : SaOpts} {e : FreqIdleEvent} {call : TraceCall}
    (hcall : call ∈ handleFreqIdleEvent opts e) :
    opts.cpuIdle = true ∧ call.option = .cpuIdle := by
  simp only [handleFreqIdleEvent, mem_callsIf, List.mem_cons, List.not_mem_nil, or_false]
    at hcall
  obtain ⟨hopt, rfl | ⟨-, rfl⟩⟩ := hcall <;> exact ⟨hopt, rfl⟩

/-- The rings whose handlers do not look at the option of what they report. -/
def Ring.ungated : List Ring :=
  [.schedSwitch, .lb, .ipi]

/-- All other handlers report for options that are on. -/
theorem isOn_of_mem_handleRecord {state : UserState} {r : Record} {call : TraceCall}
    (hgated : r.ring ∉ Ring.ungated) (hcall : call ∈ handleRecord state r) :
    state.opts.isOn call.option = true := by
  cases r
  case rqPelt e =>
    obtain ⟨signal, value, rfl, hopt, -⟩ := mem_handleRqPeltEvent hcall
    exact hopt
  case taskPelt e =>
    obtain ⟨signal, hreports, rfl⟩ := mem_handleTaskPeltEvent hcall
    exact TaskPeltEvent.isOn_of_reports hreports
  case rqNrRunning e =>
    obtain ⟨hopt, hmem⟩ := mem_callsIf.mp hcall
    rw [List.mem_singleton.mp hmem]
    exact hopt
  case freqIdle e =>
    obtain ⟨hopt, hoption⟩ := mem_handleFreqIdleEvent hcall
    rw [hoption]
    exact hopt
  case softirq e => exact absurd hcall List.not_mem_nil
  all_goals simp [Record.ring, Ring.ungated] at hgated

/-! ## Enabled programs -/

/-- The options any of which keeps a program enabled. -/
def Program.enabledBy : Program → List SaOption
  | .handlePeltSe => [.loadAvgTask, .runnableAvgTask, .utilAvgTask]
  | .handleUtilEstSe => [.utilEstTask]
  | .handlePeltCfs => [.loadAvgCpu, .runnableAvgCpu, .utilAvgCpu]
  | .handleUtilEstCfs => [.utilEstCpu]
  | .handlePeltRt => [.utilAvgRt]
  | .handlePeltDl => [.utilAvgDl]
  | .handlePeltIrq => [.utilAvgIrq]
  | .handlePeltThermal => [.loadAvgThermal]
  | .handleSchedUpdateNrRunning => [.cpuNrRunning]
  | .handleSchedProcessFree => [.loadAvgTask, .runnableAvgTask, .utilAvgTask, .utilEstTask]
  | .handleCpuIdle | .handleCpuIdleMiss => [.cpuIdle]
  | .handleIpiSendCpu => [.ipi]
  | program => if program ∈ alwaysDisabled then [] else [.loadBalance]

theorem contains_disableIf (condition : Bool) (programs : List Program) (program : Program) :
    (disableIf condition programs).contains program =
      (condition && programs.contains program) := by
  cases condition <;> rfl

/-- A program is enabled when one of its options is on, and never when it is one
of those `main` always disables. -/
theorem autoload_eq (opts : SaOpts) (program : Program) :
    autoload opts program =
      (!alwaysDisabled.contains program && program.enabledBy.any opts.isOn) := by
  simp only [autoload, disabledPrograms, List.contains_append, contains_disableIf]
  cases program <;> simp [alwaysDisabled, loadBalancePrograms, Program.enabledBy, SaOpts.isOn,
    Bool.or_assoc]

/-- Under the load-balance and IPI rings, only their options keep programs enabled. -/
theorem isOn_of_autoload {opts : SaOpts} {program : Program}
    (hautoload : autoload opts program = true) :
    (program.ring = .lb → opts.loadBalance = true) ∧ (program.ring = .ipi → opts.ipi = true) ∧
      program.ring ≠ .schedSwitch := by
  rw [autoload_eq] at hautoload
  revert hautoload
  cases program <;> simp [alwaysDisabled, Program.enabledBy, Program.ring, SaOpts.isOn]

theorem step_sessionTracer_of_enabled {k : KernelInfo} {user : UserState} {f : Firing}
    (hautoload : autoload user.opts f.hook.program = true) (maps : BpfMaps) :
    (sessionTracer k user).step maps f = (tracer k user).step maps f := by
  simp only [sessionTracer, hautoload, if_true]

theorem step_sessionTracer_of_disabled {k : KernelInfo} {user : UserState} {f : Firing}
    (hautoload : autoload user.opts f.hook.program = false) (maps : BpfMaps) :
    (sessionTracer k user).step maps f = (maps, []) := by
  simp only [sessionTracer, hautoload, Bool.false_eq_true, if_false]

/-- One hook of a session reports for options that are on. -/
theorem isOn_of_mem_step {k : KernelInfo} {state : UserState} {maps : BpfMaps} {f : Firing}
    {call : TraceCall} (hcall : call ∈ ((sessionTracer k state).step maps f).2) :
    state.opts.isOn call.option = true := by
  simp only [sessionTracer] at hcall
  split at hcall
  next hautoload =>
    obtain ⟨hlb, hipi, hswitch⟩ := isOn_of_autoload hautoload
    obtain ⟨r, hr, hcall⟩ := List.mem_flatMap.mp hcall
    have hring := ring_of_mem_fire hr
    by_cases hgated : r.ring ∈ Ring.ungated
    · cases r <;> simp only [Record.ring] at hring hgated
      case schedSwitch e => exact absurd hring.symm hswitch
      case lb e =>
        rw [option_of_mem_handleLbEvent state.opts hcall]
        exact hlb hring.symm
      case ipi e =>
        rw [option_of_mem_handleIpiEvent hcall]
        exact hipi hring.symm
      all_goals exact absurd hgated (by decide)
    · exact isOn_of_mem_handleRecord hgated hcall
  next => exact absurd hcall List.not_mem_nil

/-! ## Who feeds a branch -/

/-- The options whose branches take records of a ring buffer. -/
def Ring.options : Ring → List SaOption
  | .rqPelt =>
      [.loadAvgCpu, .runnableAvgCpu, .utilAvgCpu, .utilEstCpu, .utilAvgRt, .utilAvgDl,
        .utilAvgIrq, .loadAvgThermal]
  | .taskPelt => [.loadAvgTask, .runnableAvgTask, .utilAvgTask, .utilEstTask]
  | .rqNrRunning => [.cpuNrRunning]
  | .schedSwitch => [.loadAvgTask, .utilAvgTask, .utilEstTask]
  | .freqIdle => [.cpuIdle]
  | .softirq => []
  | .lb => [.loadBalance]
  | .ipi => [.ipi]

theorem option_mem_ring {state : UserState} {r : Record} {call : TraceCall}
    (hcall : call ∈ handleRecord state r) : call.option ∈ r.ring.options := by
  cases r with
  | rqPelt e =>
      obtain ⟨signal, value, rfl, -, hcarries⟩ := mem_handleRqPeltEvent hcall
      change signal.option ∈ Ring.rqPelt.options
      cases signal
      case nrRunning => exact absurd hcarries Bool.false_ne_true
      all_goals decide
  | taskPelt e =>
      obtain ⟨signal, -, rfl⟩ := mem_handleTaskPeltEvent hcall
      change signal.option ∈ Ring.taskPelt.options
      cases signal <;> decide
  | rqNrRunning e =>
      rw [List.mem_singleton.mp (mem_callsIf.mp hcall).2]
      exact List.mem_cons_self
  | schedSwitch e =>
      simp only [handleRecord, handleSchedSwitchEvent] at hcall
      split at hcall
      · exact absurd hcall List.not_mem_nil
      · simp only [List.mem_append, mem_callsIf, List.mem_cons, List.not_mem_nil, or_false] at hcall
        rcases hcall with (⟨-, rfl⟩ | ⟨-, rfl | rfl⟩) | ⟨-, rfl | rfl⟩ <;>
          simp [TraceCall.option, TaskSignal.option, Record.ring, Ring.options]
  | freqIdle e =>
      rw [(mem_handleFreqIdleEvent hcall).2]
      exact List.mem_cons_self
  | softirq e => exact absurd hcall List.not_mem_nil
  | lb e =>
      rw [option_of_mem_handleLbEvent state.opts hcall]
      exact List.mem_cons_self
  | ipi e =>
      rw [option_of_mem_handleIpiEvent hcall]
      exact List.mem_cons_self

/-- The options whose branches take records of a program. The records of
`handle_pelt_thermal` pass for a load average of CPUs, those of
`handle_util_est_cfs` for whatever type their slot last had. -/
def Program.feeds : Program → List SaOption
  | .handlePeltSe => [.loadAvgTask, .runnableAvgTask, .utilAvgTask]
  | .handleUtilEstSe => [.utilEstTask]
  | .handlePeltCfs => [.loadAvgCpu, .runnableAvgCpu, .utilAvgCpu]
  | .handleUtilEstCfs => [.utilEstCpu, .loadAvgThermal]
  | .handlePeltRt => [.utilAvgRt]
  | .handlePeltDl => [.utilAvgDl]
  | .handlePeltIrq => [.utilAvgIrq]
  | .handlePeltThermal => [.loadAvgThermal, .loadAvgCpu]
  | program => program.ring.options

theorem mem_flatMap_rqPelt {state : UserState} {slot : Option RqPeltEvent} {call : TraceCall} :
    call ∈ (slot.map Record.rqPelt).toList.flatMap (handleRecord state) ↔
      ∃ e, slot = some e ∧ call ∈ handleRqPeltEvent state.opts e := by
  cases slot <;> simp [handleRecord]

/-- The calls for a record belong to the signals that the record carries. -/
theorem option_of_mem_rqPelt {state : UserState} {slot : Option RqPeltEvent} {call : TraceCall}
    (hcall : call ∈ (slot.map Record.rqPelt).toList.flatMap (handleRecord state)) :
    ∃ e signal, slot = some e ∧ e.carries signal = true ∧ call.option = signal.option := by
  obtain ⟨e, he, hcall⟩ := mem_flatMap_rqPelt.mp hcall
  obtain ⟨signal, value, rfl, -, hcarries⟩ := mem_handleRqPeltEvent hcall
  exact ⟨e, signal, he, hcarries, rfl⟩

/-- The calls for a task's record belong to the signals that it reports. -/
theorem option_of_mem_taskPelt {state : UserState} {slot : Option TaskPeltEvent}
    {call : TraceCall}
    (hcall : call ∈ (slot.map Record.taskPelt).toList.flatMap (handleRecord state)) :
    ∃ e signal, slot = some e ∧ e.reports state.opts signal = true ∧
      call.option = signal.option := by
  obtain ⟨e, he, hcall⟩ := mem_flatMap_taskPelt.mp hcall
  obtain ⟨signal, hreports, rfl⟩ := mem_handleTaskPeltEvent hcall
  exact ⟨e, signal, he, hreports, rfl⟩

/-- The option that shows the records of a type. -/
def PeltType.option : PeltType → SaOption
  | .cfs => .utilAvgCpu
  | .rt => .utilAvgRt
  | .dl => .utilAvgDl
  | .irq => .utilAvgIrq
  | .thermal => .loadAvgThermal

/-- A class record is taken by the branch of its type, and by that of the load
average of CPUs if it has a load. -/
theorem option_of_mem_class {state : UserState} {fieldExists : Bool} {type : PeltType}
    {loadAvg utilAvg now : UInt64} {rq : Rq} {slot : Option RqPeltEvent} {call : TraceCall}
    (hcall : call ∈ ((submitClassPelt fieldExists type loadAvg utilAvg now rq slot).map
      Record.rqPelt).toList.flatMap (handleRecord state)) :
    call.option = type.option ∨ call.option = .loadAvgCpu ∧ loadAvg ≠ absent := by
  obtain ⟨e, signal, he, hcarries, hoption⟩ := option_of_mem_rqPelt hcall
  rw [hoption]
  unfold submitClassPelt at he
  split at he
  · obtain ⟨content, -, rfl⟩ := Option.map_eq_some_iff.mp he
    revert hcarries
    cases signal <;> cases type <;>
      simp [RqPeltEvent.carries, CpuSignal.option, PeltType.option]
  · exact absurd he (by simp)

/-- The calls for a task's record that a program fills belong to the signals that the
filled record reports. -/
theorem option_of_mem_filledTask {state : UserState} {takes : Bool} {slot : Option TaskPeltEvent}
    {fill : TaskPeltEvent → TaskPeltEvent} {options : List SaOption}
    (hfill : ∀ content signal, (fill content).reports state.opts signal = true →
      signal.option ∈ options) {call : TraceCall}
    (hcall : call ∈ ((if takes then slot.map fill else none).map Record.taskPelt).toList.flatMap
      (handleRecord state)) : call.option ∈ options := by
  obtain ⟨e, signal, he, hreports, hoption⟩ := option_of_mem_taskPelt hcall
  rw [hoption]
  split at he
  · obtain ⟨content, -, rfl⟩ := Option.map_eq_some_iff.mp he
    exact hfill content signal hreports
  · cases he

/-- The same for a record of a runqueue. -/
theorem option_of_mem_filledRq {state : UserState} {takes : Bool} {rq? : Option Rq}
    {slot : Option RqPeltEvent} {fill : Rq → RqPeltEvent → RqPeltEvent}
    {options : List SaOption}
    (hfill : ∀ rq content signal, (fill rq content).carries signal = true →
      signal.option ∈ options) {call : TraceCall}
    (hcall : call ∈ ((if takes then do return fill (← rq?) (← slot) else none).map
      Record.rqPelt).toList.flatMap (handleRecord state)) : call.option ∈ options := by
  obtain ⟨e, signal, he, hcarries, hoption⟩ := option_of_mem_rqPelt hcall
  rw [hoption]
  split at he
  · obtain ⟨rq, -, he⟩ := Option.bind_eq_some_iff.mp he
    obtain ⟨content, -, he⟩ := Option.bind_eq_some_iff.mp he
    rw [← Option.some.inj he] at hcarries
    exact hfill rq content signal hcarries
  · cases he

theorem option_of_mem_peltSe {k : KernelInfo} {state : UserState} {running : SchedSwitchMap}
    {now : UInt64} {se : SchedEntity} {slot : Option TaskPeltEvent} {call : TraceCall}
    (hcall : call ∈ ((handlePeltSe k running now se slot).map Record.taskPelt).toList.flatMap
      (handleRecord state)) :
    call.option ∈ Program.handlePeltSe.feeds := by
  rw [handlePeltSe] at hcall
  apply option_of_mem_filledTask _ hcall
  intro content signal
  -- Both estimates are marked absent.
  cases signal <;>
    simp [TaskPeltEvent.reports, TaskPeltEvent.fields, TaskSignal.option, Program.feeds]

theorem option_of_mem_utilEstSe {k : KernelInfo} {state : UserState} {running : SchedSwitchMap}
    {now : UInt64} {se : SchedEntity} {slot : Option TaskPeltEvent} {call : TraceCall}
    (hcall : call ∈ ((handleUtilEstSe k running now se slot).map Record.taskPelt).toList.flatMap
      (handleRecord state)) :
    call.option ∈ Program.handleUtilEstSe.feeds := by
  rw [handleUtilEstSe] at hcall
  apply option_of_mem_filledTask _ hcall
  intro content signal
  -- All averages are marked absent.
  cases signal <;>
    simp [TaskPeltEvent.reports, TaskPeltEvent.fields, TaskSignal.option, Program.feeds]

theorem option_of_mem_peltCfs {k : KernelInfo} {state : UserState} {now : UInt64}
    {cfsRq : CfsRq} {slot : Option RqPeltEvent} {call : TraceCall}
    (hcall : call ∈ ((handlePeltCfs k now cfsRq slot).map Record.rqPelt).toList.flatMap
      (handleRecord state)) :
    call.option ∈ Program.handlePeltCfs.feeds := by
  rw [handlePeltCfs] at hcall
  apply option_of_mem_filledRq _ hcall
  intro rq content signal
  cases signal <;> simp [RqPeltEvent.carries, CpuSignal.option, Program.feeds]

theorem option_of_mem_utilEstCfs {k : KernelInfo} {state : UserState} {now : UInt64}
    {cfsRq : CfsRq} {slot : Option RqPeltEvent} {call : TraceCall}
    (hcall : call ∈ ((handleUtilEstCfs k now cfsRq slot).map Record.rqPelt).toList.flatMap
      (handleRecord state)) :
    call.option ∈ Program.handleUtilEstCfs.feeds := by
  rw [handleUtilEstCfs] at hcall
  apply option_of_mem_filledRq _ hcall
  intro rq content signal
  -- The type is that of the slot, so the thermal branch may take the record.
  cases signal <;> simp [RqPeltEvent.carries, CpuSignal.option, Program.feeds]

/-- A hook's record is taken by the branches of `feeds` only. -/
theorem option_mem_feeds {k : KernelInfo} {state : UserState} {maps : BpfMaps} {f : Firing}
    {call : TraceCall} (hcall : call ∈ ((tracer k state).step maps f).2) :
    call.option ∈ f.hook.program.feeds := by
  have hring : call.option ∈ f.hook.program.ring.options := by
    obtain ⟨r, hr, hcall⟩ := List.mem_flatMap.mp hcall
    rw [← ring_of_mem_fire hr]
    exact option_mem_ring hcall
  obtain ⟨hook, now, nowNext, thisCpu, reserved, reservedNext, slots⟩ := f
  cases hook
  case peltSe se => exact option_of_mem_peltSe hcall
  case utilEstSe se => exact option_of_mem_utilEstSe hcall
  case peltCfs cfsRq => exact option_of_mem_peltCfs hcall
  case utilEstCfs cfsRq => exact option_of_mem_utilEstCfs hcall
  case peltThermal rq =>
    rcases option_of_mem_class hcall with hoption | ⟨hoption, -⟩
    · exact hoption ▸ List.mem_cons_self
    · exact hoption ▸ List.mem_cons_of_mem _ List.mem_cons_self
  case peltRt | peltDl | peltIrq =>
    rcases option_of_mem_class hcall with hoption | ⟨-, hload⟩
    · exact hoption ▸ List.mem_cons_self
    · exact absurd rfl hload
  -- The other rings tell the option.
  all_goals exact hring

/-! ## Agreement -/

/-- Where a branch takes a record that is not its own. -/
theorem feeds_cases {option : SaOption} {program : Program} (hfeeds : option ∈ program.feeds) :
    option ∈ program.enabledBy ∨ program ∈ alwaysDisabled ∨
      option = .loadAvgCpu ∧ program = .handlePeltThermal ∨
        option = .loadAvgThermal ∧ program = .handleUtilEstCfs := by
  revert hfeeds
  cases option <;> cases program <;> decide

theorem autoload_of_enabledBy {opts : SaOpts} {option : SaOption} {program : Program}
    (hoption : option ∈ program.enabledBy) (hopt : opts.isOn option = true) :
    autoload opts program = true ∨ program ∈ alwaysDisabled := by
  by_cases hdisabled : program ∈ alwaysDisabled
  · exact Or.inr hdisabled
  · left
    rw [autoload_eq, Bool.and_eq_true, List.any_eq_true]
    exact ⟨by simpa using hdisabled, option, hoption, hopt⟩

/-- A thermal record that every CPU-level branch could take. -/
theorem consumes_loadAvg_thermal : Consumes .loadAvgCpu .handlePeltThermal := by
  refine ⟨.complete 0, .initial { SaOpts.initial with loadAvgCpu := true }, .empty,
    (Hook.peltThermal (.unused 0)).firing 0 0, rfl, .cpu .loadAvg 0 0 0, ?_, rfl⟩
  decide

/-- An estimate in a slot that last held a thermal record. -/
theorem consumes_thermal_utilEst : Consumes .loadAvgThermal .handleUtilEstCfs := by
  refine ⟨.complete 0, .initial { SaOpts.initial with loadAvgThermal := true }, .empty,
    { (Hook.utilEstCfs ⟨0, some (.unused 0), .unused 0, .zero⟩).firing 0 0 with
      slots := { Slots.fresh with
        rqPelt := { Slots.fresh.rqPelt with type := PeltType.thermal.code } } }, rfl,
    .cpu .loadAvgThermal 0 0 (-1), ?_, rfl⟩
  decide

/-- Every call belongs to an option that is on and every program that an option's
branch takes records of is enabled, if and only if the two branches that take
records of a foreign program are not left without it. -/
theorem gatingAgrees_iff (opts : SaOpts) :
    GatingAgrees opts ↔
      (opts.loadAvgCpu = true → opts.loadAvgThermal = true) ∧
        (opts.loadAvgThermal = true → opts.utilEstCpu = true) := by
  constructor
  · intro hagrees
    constructor
    · intro hopt
      have henabled := hagrees.consumed_enabled .loadAvgCpu _ hopt consumes_loadAvg_thermal
      simpa [autoload_eq, alwaysDisabled, Program.enabledBy, SaOpts.isOn] using henabled
    · intro hopt
      have henabled := hagrees.consumed_enabled .loadAvgThermal _ hopt consumes_thermal_utilEst
      simpa [autoload_eq, alwaysDisabled, Program.enabledBy, SaOpts.isOn] using henabled
  · rintro ⟨hthermal, hest⟩
    constructor
    · rintro k state maps run rfl
      exact (sessionTracer k state).forall_mem_outputs
        (fun _ _ _ _ hcall => isOn_of_mem_step hcall) maps
    · rintro option program hopt ⟨k, state, maps, f, rfl, call, hcall, rfl⟩
      rcases feeds_cases (option_mem_feeds hcall) with
        henabled | hdisabled | ⟨hoption, hprogram⟩ | ⟨hoption, hprogram⟩
      · exact autoload_of_enabledBy henabled hopt
      · exact Or.inr hdisabled
      · rw [hoption] at hopt
        rw [hprogram]
        have hon : opts.isOn .loadAvgThermal = true := hthermal hopt
        exact autoload_of_enabledBy List.mem_cons_self hon
      · rw [hoption] at hopt
        rw [hprogram]
        have hon : opts.isOn .utilEstCpu = true := hest hopt
        exact autoload_of_enabledBy List.mem_cons_self hon

/-- `--load_avg_cpu` alone: its branch takes thermal records, whose program is
not enabled. -/
theorem gatingAgrees_fails_for_loadAvg :
    ¬ GatingAgrees { SaOpts.initial with loadAvgCpu := true } := by
  intro hagrees
  have henabled := hagrees.consumed_enabled .loadAvgCpu .handlePeltThermal rfl
    consumes_loadAvg_thermal
  revert henabled
  decide

end SchedAnalyzer
