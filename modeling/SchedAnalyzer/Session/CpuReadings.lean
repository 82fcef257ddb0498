import SchedAnalyzer.Session.Gating
import SchedAnalyzer.Session.RqPelt

/-! # What the kernel has for a CPU-level counter

The value of each counter when a hook runs, stated on the kernel's structures. In
a session of any hooks, the calls of a counter are the values its hooks had, in
order.
-/

namespace SchedAnalyzer

open Foundation

/-! ## Values of the kernel -/

/-- The value of a counter on a CPU. -/
structure CpuReading where
  cpu : Int32
  value : UInt64

/-- What a reading adds to the counter of a CPU. -/
def CpuReading.sample? (reading : CpuReading) (ts : UInt64) (cpu : Int32) :
    Option (UInt64 × Int) :=
  if reading.cpu = cpu then some (ts, reading.value.toNat) else none

/-- The value that a CFS runqueue of a CPU has for a counter. -/
def CfsRq.value? (k : KernelInfo) (cfsRq : CfsRq) (rq : Rq) : CpuSignal → Option UInt64
  | .loadAvg => some cfsRq.avg.loadAvg
  | .runnableAvg => some cfsRq.avg.runnableAvg
  | .utilAvg => some cfsRq.avg.utilAvg
  | .uclampedAvg =>
      if k.rqHasUclamp .min && k.rqHasUclamp .max then
        some (clamp cfsRq.avg.utilAvg (rq.uclamp .min).toUInt64 (rq.uclamp .max).toUInt64)
      else none
  | _ => none

/-- The value that the kernel has for a counter when a hook runs. -/
def Hook.cpuReading? (k : KernelInfo) (signal : CpuSignal) : Hook → Option CpuReading
  | .peltCfs cfsRq =>
      if cfsRqIsRoot k cfsRq then
        (rqOf k cfsRq).bind fun rq => (cfsRq.value? k rq signal).map fun value => ⟨rq.cpu, value⟩
      else none
  | .utilEstCfs cfsRq =>
      if cfsRqIsRoot k cfsRq && signal == .utilEstEnqueued then
        (rqOf k cfsRq).map fun rq => ⟨rq.cpu, maskUtilEst (readUtilEst k cfsRq.avg).1⟩
      else none
  | .peltRt rq =>
      if k.rqHasAvgRt && signal == .utilAvgRt then some ⟨rq.cpu, rq.avgRt.utilAvg⟩ else none
  | .peltDl rq =>
      if k.rqHasAvgDl && signal == .utilAvgDl then some ⟨rq.cpu, rq.avgDl.utilAvg⟩ else none
  | .peltIrq rq =>
      if k.rqHasAvgIrq && signal == .utilAvgIrq then some ⟨rq.cpu, rq.avgIrq.utilAvg⟩ else none
  | .peltThermal rq =>
      if k.rqHasAvgThermal && signal == .loadAvgThermal then
        some ⟨rq.cpu, rq.avgThermal.loadAvg⟩
      else none
  | .schedUpdateNrRunning rq _ =>
      if signal == .nrRunning then some ⟨rq.cpu, rq.nrRunning.toUInt64⟩ else none
  | _ => none

/-- All values that a hook has fit an `int`. -/
def Hook.SmallReadings (k : KernelInfo) (hook : Hook) : Prop :=
  ∀ signal, ∀ reading ∈ hook.cpuReading? k signal, reading.value.toNat < 2 ^ 31

/-- What a hook invocation adds to the counter of a CPU: nothing when its record was
dropped or the option is off. -/
def Firing.cpuValue? (k : KernelInfo) (opts : SaOpts) (signal : CpuSignal) (cpu : Int32)
    (f : Firing) : Option (UInt64 × Int) :=
  if f.reserved && opts.isOn signal.option then
    (f.hook.cpuReading? k signal).bind fun reading => reading.sample? f.now cpu
  else none

/-- What a call adds to the counter of a CPU. -/
def TraceCall.cpuValue? (signal : CpuSignal) (cpu : Int32) : TraceCall → Option (UInt64 × Int)
  | .cpu signal' ts cpu' value =>
      if signal' = signal ∧ cpu' = cpu then some (ts, value.toInt) else none
  | _ => none

/-! ## The handler -/

/-- Whether a record has a value for a counter. -/
def RqPeltEvent.shows (e : RqPeltEvent) : CpuSignal → Bool
  | .uclampedAvg => e.carries .uclampedAvg && (e.uclampMin != absent && e.uclampMax != absent)
  | signal => e.carries signal

/-- The value that a record has for a counter. -/
def RqPeltEvent.value (e : RqPeltEvent) : CpuSignal → UInt64
  | .loadAvg | .loadAvgThermal => e.loadAvg
  | .runnableAvg => e.runnableAvg
  | .utilAvg | .utilAvgRt | .utilAvgDl | .utilAvgIrq => e.utilAvg
  | .uclampedAvg => clamp e.utilAvg e.uclampMin e.uclampMax
  | .utilEstEnqueued => e.utilEstEnqueued
  | .nrRunning => 0

/-- The counters of a runqueue record, in the order the handler reports them. -/
def CpuSignal.ofRqPelt : List CpuSignal :=
  [.loadAvg, .runnableAvg, .loadAvgThermal, .utilAvg, .uclampedAvg, .utilAvgRt, .utilAvgDl,
    .utilAvgIrq, .utilEstEnqueued]

/-- The call that reports a counter. -/
def RqPeltEvent.call (e : RqPeltEvent) (signal : CpuSignal) : TraceCall :=
  .cpu signal e.ts e.cpu (toCInt (e.value signal))

theorem rqUtilAvgCalls_eq (opts : SaOpts) (e : RqPeltEvent) (hutil : (e.utilAvg != absent) = true) :
    rqUtilAvgCalls opts e =
      ([CpuSignal.utilAvg, .uclampedAvg, .utilAvgRt, .utilAvgDl, .utilAvgIrq].filter
        fun signal => opts.isOn signal.option && e.shows signal).map e.call := by
  unfold rqUtilAvgCalls
  split
  next htype =>
    cases hopt : opts.utilAvgCpu <;>
      cases huclamp : (e.uclampMin != absent && e.uclampMax != absent) <;>
      simp [RqPeltEvent.shows, RqPeltEvent.carries, RqPeltEvent.call, RqPeltEvent.value, htype,
        hutil, SaOpts.isOn, CpuSignal.option, hopt, huclamp]
  next htype =>
    cases hopt : opts.utilAvgRt <;>
      simp [RqPeltEvent.shows, RqPeltEvent.carries, RqPeltEvent.call, RqPeltEvent.value, htype,
        hutil, SaOpts.isOn, CpuSignal.option, hopt]
  next htype =>
    cases hopt : opts.utilAvgDl <;>
      simp [RqPeltEvent.shows, RqPeltEvent.carries, RqPeltEvent.call, RqPeltEvent.value, htype,
        hutil, SaOpts.isOn, CpuSignal.option, hopt]
  next htype =>
    cases hopt : opts.utilAvgIrq <;>
      simp [RqPeltEvent.shows, RqPeltEvent.carries, RqPeltEvent.call, RqPeltEvent.value, htype,
        hutil, SaOpts.isOn, CpuSignal.option, hopt]
  next hcfs hrt hdl hirq =>
    have hno : ∀ type, type ≠ .thermal → ¬ PeltType.ofCode e.type = some type := by
      intro type hthermal htype
      cases type
      case cfs => exact hcfs htype
      case rt => exact hrt htype
      case dl => exact hdl htype
      case irq => exact hirq htype
      case thermal => exact hthermal rfl
    simp [RqPeltEvent.shows, RqPeltEvent.carries, hno]

/-- The handler reports the counters one after the other. -/
theorem handleRqPeltEvent_eq (opts : SaOpts) (e : RqPeltEvent) :
    handleRqPeltEvent opts e =
      (CpuSignal.ofRqPelt.filter fun signal => opts.isOn signal.option && e.shows signal).map
        e.call := by
  have hsplit : CpuSignal.ofRqPelt =
      [.loadAvg] ++ [.runnableAvg] ++ [.loadAvgThermal] ++
        [.utilAvg, .uclampedAvg, .utilAvgRt, .utilAvgDl, .utilAvgIrq] ++ [.utilEstEnqueued] := rfl
  have hsingle : ∀ signal : CpuSignal,
      ([signal].filter fun signal => opts.isOn signal.option && e.shows signal).map e.call =
        callsIf (opts.isOn signal.option && e.shows signal) [e.call signal] := by
    intro signal
    rw [List.filter_singleton]
    cases opts.isOn signal.option && e.shows signal <;> rfl
  have hutil :
      callsIf (e.utilAvg != absent) (rqUtilAvgCalls opts e) =
        ([CpuSignal.utilAvg, .uclampedAvg, .utilAvgRt, .utilAvgDl, .utilAvgIrq].filter
          fun signal => opts.isOn signal.option && e.shows signal).map e.call := by
    cases hpresent : e.utilAvg != absent with
    | true => exact rqUtilAvgCalls_eq opts e hpresent
    | false => simp [RqPeltEvent.shows, RqPeltEvent.carries, hpresent]
  rw [handleRqPeltEvent, hutil, hsplit]
  simp only [List.filter_append, List.map_append, hsingle]
  rw [Bool.and_comm (e.type == PeltType.thermal.code)]
  rfl

/-- Of the calls for distinct counters, at most one is of a given counter and CPU. -/
theorem cpuValue?_map_call {signals : List CpuSignal} (hnodup : signals.Nodup) (e : RqPeltEvent)
    (signal : CpuSignal) (cpu : Int32) :
    (signals.map e.call).filterMap (TraceCall.cpuValue? signal cpu) =
      if signal ∈ signals ∧ e.cpu = cpu then [(e.ts, (toCInt (e.value signal)).toInt)] else [] := by
  induction signals with
  | nil => rfl
  | cons first rest ih =>
      obtain ⟨hfirst, hrest⟩ := List.nodup_cons.mp hnodup
      rw [List.map_cons, List.filterMap_cons, ih hrest]
      by_cases hsame : first = signal
      · subst hsame
        by_cases hcpu : e.cpu = cpu <;>
          simp [RqPeltEvent.call, TraceCall.cpuValue?, hcpu, hfirst]
      · have hother : signal ≠ first := fun heq => hsame heq.symm
        simp [RqPeltEvent.call, TraceCall.cpuValue?, hsame, hother]

/-- What the handler adds to the counter of a CPU. -/
theorem cpuValue?_handleRqPeltEvent (opts : SaOpts) (e : RqPeltEvent) (signal : CpuSignal)
    (cpu : Int32) :
    (handleRqPeltEvent opts e).filterMap (TraceCall.cpuValue? signal cpu) =
      if opts.isOn signal.option = true ∧ e.shows signal = true ∧ e.cpu = cpu then
        [(e.ts, (toCInt (e.value signal)).toInt)]
      else [] := by
  have hnodup : CpuSignal.ofRqPelt.Nodup := by decide
  have hmem : e.shows signal = true → signal ∈ CpuSignal.ofRqPelt := by
    cases signal
    case nrRunning => exact fun hshows => Bool.noConfusion hshows
    all_goals exact fun _ => by decide
  rw [handleRqPeltEvent_eq, cpuValue?_map_call (hnodup.filter _)]
  congr 1
  simp only [List.mem_filter, Bool.and_eq_true, and_assoc, eq_iff_iff]
  tauto

/-! ## One hook -/

/-- What a record has for a counter. -/
def RqPeltEvent.reading? (e : RqPeltEvent) (signal : CpuSignal) : Option CpuReading :=
  if e.shows signal then some ⟨e.cpu, e.value signal⟩ else none

theorem cpuValue?_record {opts : SaOpts} {e : RqPeltEvent} {signal : CpuSignal}
    (hsmall : ∀ reading ∈ e.reading? signal, reading.value.toNat < 2 ^ 31) (cpu : Int32) :
    (handleRqPeltEvent opts e).filterMap (TraceCall.cpuValue? signal cpu) =
      (if opts.isOn signal.option then
        (e.reading? signal).bind fun reading => reading.sample? e.ts cpu
      else none).toList := by
  rw [cpuValue?_handleRqPeltEvent]
  unfold RqPeltEvent.reading? at hsmall ⊢
  cases hopt : opts.isOn signal.option with
  | false => simp
  | true =>
      cases hshows : e.shows signal with
      | false => simp
      | true =>
          rw [hshows, if_pos rfl] at hsmall
          have hvalue := toInt_toCInt (hsmall _ rfl)
          by_cases hcpu : e.cpu = cpu
          · simp [CpuReading.sample?, hcpu, hvalue]
          · simp [CpuReading.sample?, hcpu]

theorem reserved_of_reserve_eq_some {Event : Type} {succeeds : Bool} {content slot : Event}
    (hslot : reserve succeeds content = some slot) : succeeds = true := by
  cases succeeds with
  | true => rfl
  | false => cases hslot

/-- The estimate without its flag is not the marker. -/
theorem present_maskUtilEst (enqueued : UInt64) : (maskUtilEst enqueued != absent) = true := by
  apply present_of_small
  rw [maskUtilEst, UInt64.toNat_and]
  exact Nat.lt_of_le_of_lt Nat.and_le_right (by decide)

/-- The record that a hook submits to the ring buffer of runqueues. -/
def Firing.rqPeltEvent? (k : KernelInfo) (f : Firing) : Option RqPeltEvent :=
  let slot := reserve f.reserved f.slots.rqPelt
  match f.hook with
  | .peltCfs cfsRq => handlePeltCfs k f.now cfsRq slot
  | .utilEstCfs cfsRq => handleUtilEstCfs k f.now cfsRq slot
  | .peltRt rq => handlePeltRt k f.now rq slot
  | .peltDl rq => handlePeltDl k f.now rq slot
  | .peltIrq rq => handlePeltIrq k f.now rq slot
  | .peltThermal rq => handlePeltThermal k f.now rq slot
  | _ => none

/-- A record tells what the kernel has for a counter. -/
structure RqPeltEvent.Tells (k : KernelInfo) (signal : CpuSignal) (f : Firing) (e : RqPeltEvent) :
    Prop where
  ts : e.ts = f.now
  reserved : f.reserved = true
  reading : e.reading? signal = f.hook.cpuReading? k signal

theorem tells_peltCfs {k : KernelInfo} {f : Firing} {cfsRq : CfsRq} {e : RqPeltEvent}
    (hhook : f.hook = .peltCfs cfsRq) (hsmall : f.hook.SmallReadings k)
    (he : f.rqPeltEvent? k = some e) (signal : CpuSignal) : e.Tells k signal f := by
  rw [Firing.rqPeltEvent?, hhook] at he
  rw [hhook] at hsmall
  simp only [handlePeltCfs] at he
  split at he
  next hroot =>
    obtain ⟨rq, hrq, he⟩ := Option.bind_eq_some_iff.mp he
    obtain ⟨slot, hslot, he⟩ := Option.bind_eq_some_iff.mp he
    obtain rfl := Option.some.inj he
    refine ⟨rfl, reserved_of_reserve_eq_some hslot, ?_⟩
    have hpresent : ∀ other value, cfsRq.value? k rq other = some value →
        (value != absent) = true := by
      intro other value hvalue
      apply present_of_small
      apply hsmall other ⟨rq.cpu, value⟩
      simp [Hook.cpuReading?, hroot, hrq, hvalue]
    have hload := hpresent .loadAvg _ rfl
    have hrunnable := hpresent .runnableAvg _ rfl
    have hutil := hpresent .utilAvg _ rfl
    have huclamp := uclamp_present k rq
    simp only [hhook, Hook.cpuReading?, hroot, hrq, if_true, Option.bind_some]
    cases signal <;>
      simp [RqPeltEvent.reading?, RqPeltEvent.shows, RqPeltEvent.carries, RqPeltEvent.value,
        CfsRq.value?, hload, hrunnable, hutil, huclamp]
    -- Both clamps are read from the runqueue when they are there.
    by_cases hhas : k.rqHasUclamp .min = true ∧ k.rqHasUclamp .max = true
    · simp [readRqUclamp, hhas.1, hhas.2]
    · simp [hhas]
  next => cases he

theorem tells_utilEstCfs {k : KernelInfo} {f : Firing} {cfsRq : CfsRq} {e : RqPeltEvent}
    (hhook : f.hook = .utilEstCfs cfsRq) (he : f.rqPeltEvent? k = some e) {signal : CpuSignal}
    (hsignal : signal ≠ .loadAvgThermal) : e.Tells k signal f := by
  rw [Firing.rqPeltEvent?, hhook] at he
  simp only [handleUtilEstCfs] at he
  split at he
  next hroot =>
    obtain ⟨rq, hrq, he⟩ := Option.bind_eq_some_iff.mp he
    obtain ⟨slot, hslot, he⟩ := Option.bind_eq_some_iff.mp he
    obtain rfl := Option.some.inj he
    refine ⟨rfl, reserved_of_reserve_eq_some hslot, ?_⟩
    have hpresent := present_maskUtilEst (readUtilEst k cfsRq.avg).1
    simp only [hhook, Hook.cpuReading?, hroot, hrq, Bool.true_and]
    cases signal <;>
      simp [RqPeltEvent.reading?, RqPeltEvent.shows, RqPeltEvent.carries, RqPeltEvent.value,
        hpresent]
    exact absurd rfl hsignal
  next => cases he

/-- The record of a scheduling class, when its value is present. -/
theorem reading?_class {fieldExists : Bool} {type : PeltType} {loadAvg utilAvg now : UInt64}
    {rq : Rq} {slot : Option RqPeltEvent} {e : RqPeltEvent}
    (he : submitClassPelt fieldExists type loadAvg utilAvg now rq slot = some e) :
    fieldExists = true ∧ (∃ content, slot = some content) ∧ e.ts = now ∧
      ∀ signal, e.reading? signal =
        match signal, type with
        | .loadAvg, _ => if loadAvg != absent then some ⟨rq.cpu, loadAvg⟩ else none
        | .loadAvgThermal, .thermal => some ⟨rq.cpu, loadAvg⟩
        | .utilAvg, .cfs | .utilAvgRt, .rt | .utilAvgDl, .dl | .utilAvgIrq, .irq =>
            if utilAvg != absent then some ⟨rq.cpu, utilAvg⟩ else none
        | _, _ => none := by
  unfold submitClassPelt at he
  split at he
  next hexists =>
    obtain ⟨content, hslot, rfl⟩ := Option.map_eq_some_iff.mp he
    refine ⟨hexists, ⟨content, hslot⟩, rfl, ?_⟩
    intro signal
    cases signal <;> cases type <;>
      simp [RqPeltEvent.reading?, RqPeltEvent.shows, RqPeltEvent.carries, RqPeltEvent.value]
  next => cases he

theorem tells_class {k : KernelInfo} {f : Firing} {e : RqPeltEvent}
    (hcfs : ∀ cfsRq, f.hook ≠ .peltCfs cfsRq ∧ f.hook ≠ .utilEstCfs cfsRq)
    (hsmall : f.hook.SmallReadings k) (he : f.rqPeltEvent? k = some e) {signal : CpuSignal}
    (hsignal : signal = .loadAvg → ∀ rq, f.hook ≠ .peltThermal rq) : e.Tells k signal f := by
  obtain ⟨hook, now, nowNext, thisCpu, reserved, reservedNext, slots⟩ := f
  simp only at hcfs hsmall hsignal
  cases hook
  case peltCfs cfsRq => exact absurd rfl (hcfs cfsRq).1
  case utilEstCfs cfsRq => exact absurd rfl (hcfs cfsRq).2
  case peltRt rq =>
    obtain ⟨hexists, ⟨content, hslot⟩, hts, hreading⟩ := reading?_class he
    have hpresent : (rq.avgRt.utilAvg != absent) = true :=
      present_of_small (hsmall .utilAvgRt ⟨rq.cpu, rq.avgRt.utilAvg⟩
        (by simp [Hook.cpuReading?, hexists]))
    refine ⟨hts, reserved_of_reserve_eq_some hslot, ?_⟩
    rw [hreading]
    cases signal <;> simp [Hook.cpuReading?, hexists, hpresent]
  case peltDl rq =>
    obtain ⟨hexists, ⟨content, hslot⟩, hts, hreading⟩ := reading?_class he
    have hpresent : (rq.avgDl.utilAvg != absent) = true :=
      present_of_small (hsmall .utilAvgDl ⟨rq.cpu, rq.avgDl.utilAvg⟩
        (by simp [Hook.cpuReading?, hexists]))
    refine ⟨hts, reserved_of_reserve_eq_some hslot, ?_⟩
    rw [hreading]
    cases signal <;> simp [Hook.cpuReading?, hexists, hpresent]
  case peltIrq rq =>
    obtain ⟨hexists, ⟨content, hslot⟩, hts, hreading⟩ := reading?_class he
    have hpresent : (rq.avgIrq.utilAvg != absent) = true :=
      present_of_small (hsmall .utilAvgIrq ⟨rq.cpu, rq.avgIrq.utilAvg⟩
        (by simp [Hook.cpuReading?, hexists]))
    refine ⟨hts, reserved_of_reserve_eq_some hslot, ?_⟩
    rw [hreading]
    cases signal <;> simp [Hook.cpuReading?, hexists, hpresent]
  case peltThermal rq =>
    obtain ⟨hexists, ⟨content, hslot⟩, hts, hreading⟩ := reading?_class he
    refine ⟨hts, reserved_of_reserve_eq_some hslot, ?_⟩
    rw [hreading]
    cases signal
    case loadAvg => exact absurd rfl (hsignal rfl rq)
    all_goals simp [Hook.cpuReading?, hexists]
  all_goals cases he

/-- No record, no value: it was dropped, or the kernel has none. -/
theorem cpuReading?_eq_none_of_no_record {k : KernelInfo} {f : Firing} {signal : CpuSignal}
    (hring : f.hook.program.ring = .rqPelt) (hreserved : f.reserved = true)
    (he : f.rqPeltEvent? k = none) : f.hook.cpuReading? k signal = none := by
  obtain ⟨hook, now, nowNext, thisCpu, reserved, reservedNext, slots⟩ := f
  simp only at hring hreserved
  subst hreserved
  cases hook
  case peltCfs cfsRq =>
    simp only [Firing.rqPeltEvent?, handlePeltCfs, reserve_true] at he
    simp only [Hook.cpuReading?]
    split at he
    next hroot =>
      obtain ⟨rq, hrq, -⟩ := cfsRqIsRoot_eq_true.mp hroot
      rw [hrq] at he
      cases he
    next hroot => rw [if_neg hroot]
  case utilEstCfs cfsRq =>
    simp only [Firing.rqPeltEvent?, handleUtilEstCfs, reserve_true] at he
    split at he
    next hroot =>
      obtain ⟨rq, hrq, -⟩ := cfsRqIsRoot_eq_true.mp hroot
      rw [hrq] at he
      cases he
    next hroot => simp [Hook.cpuReading?, hroot]
  case peltRt | peltDl | peltIrq | peltThermal =>
    simp only [Firing.rqPeltEvent?, handlePeltRt, handlePeltDl, handlePeltIrq, handlePeltThermal,
      submitClassPelt, reserve_true] at he
    split at he
    next => cases he
    next hexists => simp [Hook.cpuReading?, hexists]
  all_goals cases hring

/-- The programs that have a value for a counter are those its option enables. -/
theorem option_mem_enabledBy {k : KernelInfo} {hook : Hook} {signal : CpuSignal}
    {reading : CpuReading} (hreading : hook.cpuReading? k signal = some reading) :
    signal.option ∈ hook.program.enabledBy ∧ hook.program ∉ alwaysDisabled := by
  cases hook
  case peltCfs cfsRq =>
    simp only [Hook.cpuReading?] at hreading
    split at hreading
    next =>
      obtain ⟨rq, -, hreading⟩ := Option.bind_eq_some_iff.mp hreading
      cases signal <;> simp [CfsRq.value?] at hreading <;>
        simp [Hook.program, Program.enabledBy, CpuSignal.option, alwaysDisabled]
    next => cases hreading
  case utilEstCfs | peltRt | peltDl | peltIrq | peltThermal | schedUpdateNrRunning =>
    simp only [Hook.cpuReading?] at hreading
    cases signal <;> simp at hreading
    simp [Hook.program, Program.enabledBy, CpuSignal.option, alwaysDisabled]
  all_goals cases hreading

theorem TraceCall.cpuValue?_of_option_ne {call : TraceCall} {signal : CpuSignal}
    (hoption : call.option ≠ signal.option) (cpu : Int32) : call.cpuValue? signal cpu = none := by
  cases call with
  | cpu signal' ts cpu' value =>
      have hother : signal' ≠ signal := fun heq => hoption (congrArg CpuSignal.option heq)
      simp [TraceCall.cpuValue?, hother]
  | _ => rfl

/-- Nothing is selected of an option whose calls the handler of a hook does not make. -/
theorem filterMap_step_of_other_ring {k : KernelInfo} {user : UserState} {f : Firing}
    {option : SaOption} {Sample : Type} {select : TraceCall → Option Sample}
    (hselect : ∀ call, call.option ≠ option → select call = none)
    (hring : option ∉ f.hook.program.ring.options) (maps : BpfMaps) :
    ((tracer k user).step maps f).2.filterMap select = [] := by
  apply List.filterMap_eq_nil_iff.mpr
  intro call hmem
  obtain ⟨r, hr, hcall⟩ := List.mem_flatMap.mp hmem
  have hoption := option_mem_ring hcall
  rw [ring_of_mem_fire hr] at hoption
  apply hselect
  intro heq
  exact hring (heq ▸ hoption)

theorem step_rqPelt {k : KernelInfo} {user : UserState} {f : Firing}
    (hring : f.hook.program.ring = .rqPelt) (maps : BpfMaps) :
    ((tracer k user).step maps f).2 =
      ((f.rqPeltEvent? k).map Record.rqPelt).toList.flatMap (handleRecord user) := by
  obtain ⟨hook, now, nowNext, thisCpu, reserved, reservedNext, slots⟩ := f
  cases hook
  case peltCfs | utilEstCfs | peltRt | peltDl | peltIrq | peltThermal => rfl
  all_goals cases hring

/-- The record of a runqueue hook adds what the hook has for a counter. -/
theorem cpuValue?_rqPelt {k : KernelInfo} {user : UserState} {f : Firing} {signal : CpuSignal}
    (hring : f.hook.program.ring = .rqPelt) (hsmall : f.hook.SmallReadings k)
    (hload : signal = .loadAvg → ∀ rq, f.hook ≠ .peltThermal rq)
    (hthermal : signal = .loadAvgThermal → ∀ cfsRq, f.hook ≠ .utilEstCfs cfsRq) (cpu : Int32)
    (maps : BpfMaps) :
    ((tracer k user).step maps f).2.filterMap (TraceCall.cpuValue? signal cpu) =
      (f.cpuValue? k user.opts signal cpu).toList := by
  rw [step_rqPelt hring, Firing.cpuValue?]
  cases he : f.rqPeltEvent? k with
  | none =>
      cases hreserved : f.reserved with
      | false => rfl
      | true =>
          rw [cpuReading?_eq_none_of_no_record hring hreserved he]
          simp
  | some e =>
      have htells : e.Tells k signal f := by
        by_cases hcfs : ∃ cfsRq, f.hook = .peltCfs cfsRq
        · obtain ⟨cfsRq, hhook⟩ := hcfs
          exact tells_peltCfs hhook hsmall he signal
        · by_cases hest : ∃ cfsRq, f.hook = .utilEstCfs cfsRq
          · obtain ⟨cfsRq, hhook⟩ := hest
            exact tells_utilEstCfs hhook he fun hsignal => hthermal hsignal cfsRq hhook
          · apply tells_class _ hsmall he hload
            intro cfsRq
            exact ⟨fun h => hcfs ⟨cfsRq, h⟩, fun h => hest ⟨cfsRq, h⟩⟩
      rw [htells.reserved, Bool.true_and, ← htells.reading, ← htells.ts]
      simp only [Option.map_some, Option.toList_some, List.flatMap_singleton, handleRecord]
      apply cpuValue?_record
      intro reading hreading
      rw [htells.reading] at hreading
      exact hsmall signal reading hreading

/-- The record of a runqueue's task count adds it to its counter. -/
theorem cpuValue?_nrRunning {k : KernelInfo} {user : UserState} {f : Firing} {rq : Rq}
    {change : Int32} (hhook : f.hook = .schedUpdateNrRunning rq change)
    (hsmall : f.hook.SmallReadings k) (signal : CpuSignal) (cpu : Int32) (maps : BpfMaps) :
    ((tracer k user).step maps f).2.filterMap (TraceCall.cpuValue? signal cpu) =
      (f.cpuValue? k user.opts signal cpu).toList := by
  rw [hhook] at hsmall
  have hvalue : rq.nrRunning.toInt32.toInt = rq.nrRunning.toNat := by
    have hlt := hsmall .nrRunning ⟨rq.cpu, rq.nrRunning.toUInt64⟩ rfl
    have hcint := toInt_toCInt hlt
    simpa [toCInt] using hcint
  simp only [tracer, fire, hhook, handleSchedUpdateNrRunning, Firing.cpuValue?, Hook.cpuReading?]
  cases f.reserved with
  | false => rfl
  | true =>
      by_cases hsignal : signal = .nrRunning
      · subst hsignal
        cases hopt : user.opts.cpuNrRunning <;>
          by_cases hcpu : rq.cpu = cpu <;>
            simp [handleRecord, handleRqNrRunningEvent, TraceCall.cpuValue?, CpuReading.sample?,
              SaOpts.isOn, CpuSignal.option, hopt, hcpu, hvalue]
      · have hother : CpuSignal.nrRunning ≠ signal := fun heq => hsignal heq.symm
        cases user.opts.cpuNrRunning <;>
          simp [handleRecord, handleRqNrRunningEvent, TraceCall.cpuValue?, hsignal, hother]

/-- The other hooks have no values for these counters, and their handlers none of their
options. -/
theorem no_reading_of_other_hook (k : KernelInfo) (signal : CpuSignal) {hook : Hook}
    (hring : hook.program.ring ≠ .rqPelt)
    (hnr : ∀ rq change, hook ≠ .schedUpdateNrRunning rq change) :
    hook.cpuReading? k signal = none ∧ signal.option ∉ hook.program.ring.options := by
  cases hook
  case peltCfs | utilEstCfs | peltRt | peltDl | peltIrq | peltThermal => exact absurd rfl hring
  case schedUpdateNrRunning rq change => exact absurd rfl (hnr rq change)
  all_goals
    refine ⟨rfl, ?_⟩
    cases signal <;> simp [Hook.program, Program.ring, Ring.options, CpuSignal.option]

/-- One hook of a session adds to the counter of a CPU what the kernel has for it. Two
counters also take values of other hooks: `load_avg` those of the thermal pressure, and
`load_avg_thermal` the estimates that come in a slot of that type. -/
theorem cpuValue?_step {k : KernelInfo} {user : UserState} {f : Firing} {signal : CpuSignal}
    (hsmall : f.hook.SmallReadings k)
    (hload : signal = .loadAvg → user.opts.loadAvgThermal = false)
    (hthermal : signal = .loadAvgThermal → user.opts.utilEstCpu = false) (cpu : Int32)
    (maps : BpfMaps) :
    ((sessionTracer k user).step maps f).2.filterMap (TraceCall.cpuValue? signal cpu) =
      (f.cpuValue? k user.opts signal cpu).toList := by
  cases hautoload : autoload user.opts f.hook.program with
  | false =>
      rw [step_sessionTracer_of_disabled hautoload]
      -- The option of a value that the hook has would enable its program.
      rw [Firing.cpuValue?]
      split
      next hon =>
        cases hreading : f.hook.cpuReading? k signal with
        | none => rfl
        | some reading =>
            obtain ⟨henabled, hnever⟩ := option_mem_enabledBy hreading
            rcases autoload_of_enabledBy henabled (Bool.and_eq_true_iff.mp hon).2 with h | h
            · rw [hautoload] at h
              cases h
            · exact absurd h hnever
      next => rfl
  | true =>
      rw [step_sessionTracer_of_enabled hautoload]
      by_cases hring : f.hook.program.ring = .rqPelt
      · apply cpuValue?_rqPelt hring hsmall
        · intro hsignal rq hhook
          rw [hhook, autoload_eq, Bool.and_eq_true] at hautoload
          have hon := hautoload.2
          simp [Hook.program, Program.enabledBy, SaOpts.isOn, hload hsignal] at hon
        · intro hsignal cfsRq hhook
          rw [hhook, autoload_eq, Bool.and_eq_true] at hautoload
          have hon := hautoload.2
          simp [Hook.program, Program.enabledBy, SaOpts.isOn, hthermal hsignal] at hon
      · by_cases hnr : ∃ rq change, f.hook = .schedUpdateNrRunning rq change
        · obtain ⟨rq, change, hhook⟩ := hnr
          exact cpuValue?_nrRunning hhook hsmall signal cpu maps
        · obtain ⟨hnone, hoption⟩ := no_reading_of_other_hook k signal hring
            fun rq change hhook => hnr ⟨rq, change, hhook⟩
          rw [filterMap_step_of_other_ring (fun _ h => TraceCall.cpuValue?_of_option_ne h cpu)
            hoption, Firing.cpuValue?, hnone, Option.bind_none, ite_self]
          rfl

/-! ## Runs -/

/-- In a session of any hooks, the counter of a CPU gets the values that its hooks have
for it, one after the other and nothing else. -/
theorem cpuValues_session {k : KernelInfo} {user : UserState} {firings : List Firing}
    {signal : CpuSignal} (hsmall : ∀ f ∈ firings, f.hook.SmallReadings k)
    (hload : signal = .loadAvg → user.opts.loadAvgThermal = false)
    (hthermal : signal = .loadAvgThermal → user.opts.utilEstCpu = false) (cpu : Int32)
    (maps : BpfMaps) :
    ((sessionTracer k user).outputs maps firings).filterMap (TraceCall.cpuValue? signal cpu) =
      firings.filterMap (Firing.cpuValue? k user.opts signal cpu) := by
  rw [Transducer.filterMap_outputs_eq_flatMap (sessionTracer k user)
    (fun current f hf => cpuValue?_step (hsmall f hf) hload hthermal cpu current) maps]
  exact (List.filterMap_eq_flatMap_toList _ _).symm

end SchedAnalyzer
