import SchedAnalyzer.Foundation.Lists
import SchedAnalyzer.Session.Gating

/-! # Runqueue PELT from hook to trace

Five programs share the `rq_pelt` record. A field the producer has no value for
is marked absent, and the handler dispatches partly on these marks and partly on
the type. The samples a run should give are stated per hook; the handler's calls
are those samples as long as no thermal record meets the `load_avg` option of CPUs,
which takes both options: `main` loads the thermal program for the other one.
-/

namespace SchedAnalyzer

open Foundation Foundation.Lists

/-! ## The samples a hook stands for -/

/-- A sample of a CPU-level counter, with its value as a number. -/
structure CpuSample where
  signal : CpuSignal
  ts : UInt64
  cpu : Int32
  value : Nat
  deriving DecidableEq, Repr

/-- The sample a call adds, if it is one of a CPU-level counter with a value
that is not negative. -/
def TraceCall.sample? : TraceCall → Option CpuSample
  | .cpu signal ts onCpu value =>
      if 0 ≤ value.toInt then some ⟨signal, ts, onCpu, value.toInt.toNat⟩ else none
  | _ => none

/-- The samples of an option that is on. -/
def samplesIf (condition : Bool) (samples : List CpuSample) : List CpuSample :=
  if condition then samples else []

@[simp] theorem samplesIf_true (samples : List CpuSample) : samplesIf true samples = samples :=
  rfl

@[simp] theorem samplesIf_false (samples : List CpuSample) : samplesIf false samples = [] := rfl

/-- `clamp` on numbers. -/
def clampNat (val lo hi : Nat) : Nat :=
  if hi ≤ val then hi else if val ≤ lo then lo else val

/-- What one CFS update of a root runqueue should show. -/
def cfsSamples (k : KernelInfo) (opts : SaOpts) (now : UInt64) (rq : Rq) (avg : SchedAvg) :
    List CpuSample :=
  samplesIf opts.loadAvgCpu [⟨.loadAvg, now, rq.cpu, avg.loadAvg.toNat⟩] ++
    samplesIf opts.runnableAvgCpu [⟨.runnableAvg, now, rq.cpu, avg.runnableAvg.toNat⟩] ++
    samplesIf opts.utilAvgCpu
      (⟨.utilAvg, now, rq.cpu, avg.utilAvg.toNat⟩ ::
        samplesIf (k.rqHasUclamp .min && k.rqHasUclamp .max)
          [⟨.uclampedAvg, now, rq.cpu,
            clampNat avg.utilAvg.toNat (rq.uclamp .min).toNat (rq.uclamp .max).toNat⟩])

/-- What a hook should show. A class whose average the kernel does not have
shows nothing. -/
def rqPeltSamples (k : KernelInfo) (opts : SaOpts) (f : Firing) : List CpuSample :=
  match f.hook with
  | .peltCfs cfsRq =>
      match rqOf k cfsRq with
      | some rq => cfsSamples k opts f.now rq cfsRq.avg
      | none => []
  | .peltRt rq =>
      samplesIf (k.rqHasAvgRt && opts.utilAvgRt)
        [⟨.utilAvgRt, f.now, rq.cpu, rq.avgRt.utilAvg.toNat⟩]
  | .peltDl rq =>
      samplesIf (k.rqHasAvgDl && opts.utilAvgDl)
        [⟨.utilAvgDl, f.now, rq.cpu, rq.avgDl.utilAvg.toNat⟩]
  | .peltIrq rq =>
      samplesIf (k.rqHasAvgIrq && opts.utilAvgIrq)
        [⟨.utilAvgIrq, f.now, rq.cpu, rq.avgIrq.utilAvg.toNat⟩]
  | .peltThermal rq =>
      samplesIf (k.rqHasAvgThermal && opts.loadAvgThermal)
        [⟨.loadAvgThermal, f.now, rq.cpu, rq.avgThermal.loadAvg.toNat⟩]
  | _ => []

/-! ## Runs -/

/-- Averages below `2^31`. -/
structure SchedAvg.Small (avg : SchedAvg) : Prop where
  loadAvg : avg.loadAvg.toNat < 2 ^ 31
  runnableAvg : avg.runnableAvg.toNat < 2 ^ 31
  utilAvg : avg.utilAvg.toNat < 2 ^ 31

/-- An update of a root CFS runqueue or of one of the other averages of a
runqueue, with values below `2^31`. -/
def Hook.IsRqPelt (k : KernelInfo) : Hook → Prop
  | .peltCfs cfsRq =>
      cfsRqIsRoot k cfsRq = true ∧ cfsRq.avg.Small ∧
        ∀ rq, rqOf k cfsRq = some rq → ∀ id, (rq.uclamp id).toNat < 2 ^ 31
  | .peltRt rq => rq.avgRt.Small
  | .peltDl rq => rq.avgDl.Small
  | .peltIrq rq => rq.avgIrq.Small
  | .peltThermal rq => rq.avgThermal.Small
  | _ => False

/-- Such hooks only, and no record dropped. -/
def RqPeltRun (k : KernelInfo) (run : List Firing) : Prop :=
  ∀ f ∈ run, f.hook.IsRqPelt k ∧ f.reserved = true

/-- The hook submits a thermal record. -/
def Firing.submitsThermal (k : KernelInfo) (f : Firing) : Bool :=
  match f.hook with
  | .peltThermal _ => k.rqHasAvgThermal
  | _ => false

/-- The calls of a run are the samples its hooks stand for, one after the other;
in particular the CPU `load_avg` counter carries the load of CFS updates only. -/
structure ShowsRqPelt (k : KernelInfo) (opts : SaOpts) (run : List Firing)
    (calls : List TraceCall) : Prop where
  samples : calls.map TraceCall.sample? = (run.flatMap (rqPeltSamples k opts)).map some
  loadAvg_cfs : ∀ ts cpu value, .cpu .loadAvg ts cpu value ∈ calls →
    ∃ f ∈ run, ∃ cfsRq rq, f.hook = .peltCfs cfsRq ∧ rqOf k cfsRq = some rq ∧ ts = f.now ∧
      cpu = rq.cpu ∧ value.toInt = (cfsRq.avg.loadAvg.toNat : Int)

/-! ## One hook -/

theorem present_of_small {value : UInt64} (hvalue : value.toNat < 2 ^ 31) :
    (value != absent) = true := by
  rw [bne_iff_ne]
  rintro rfl
  revert hvalue
  decide

theorem present_of_uint32 (value : UInt32) : (value.toUInt64 != absent) = true := by
  rw [bne_iff_ne]
  intro heq
  have hnat := congrArg UInt64.toNat heq
  have hlt := value.toNat_lt
  simp only [UInt32.toNat_toUInt64, absent] at hnat
  rw [hnat] at hlt
  revert hlt
  decide

theorem sample?_toCInt {value : UInt64} (hvalue : value.toNat < 2 ^ 31) (signal : CpuSignal)
    (ts : UInt64) (cpu : Int32) :
    (TraceCall.cpu signal ts cpu (toCInt value)).sample? =
      some ⟨signal, ts, cpu, value.toNat⟩ := by
  simp only [TraceCall.sample?, toInt_toCInt hvalue, Int.natCast_nonneg, if_true,
    Int.toNat_natCast]

theorem toNat_clamp (val lo hi : UInt64) :
    (clamp val lo hi).toNat = clampNat val.toNat lo.toNat hi.toNat := by
  simp only [clamp, clampNat, ge_iff_le, UInt64.le_iff_toNat_le]
  split
  · rfl
  · split <;> rfl

theorem clampNat_lt {val lo hi bound : Nat} (hval : val < bound) (hlo : lo < bound)
    (hhi : hi < bound) : clampNat val lo hi < bound := by
  unfold clampNat
  split
  · exact hhi
  · split <;> assumption

/-- The load a thermal record adds to the CPU `load_avg` counter: the handler
does not look at the type there. -/
def strayLoad (k : KernelInfo) (opts : SaOpts) (f : Firing) : List CpuSample :=
  match f.hook with
  | .peltThermal rq =>
      samplesIf (k.rqHasAvgThermal && opts.loadAvgCpu)
        [⟨.loadAvg, f.now, rq.cpu, rq.avgThermal.loadAvg.toNat⟩]
  | _ => []

/-- The uclamped sample is there exactly when the runqueue has both values. -/
theorem uclamp_present (k : KernelInfo) (rq : Rq) :
    (readRqUclamp k rq .min != absent && readRqUclamp k rq .max != absent) =
      (k.rqHasUclamp .min && k.rqHasUclamp .max) := by
  have hread : ∀ id, (readRqUclamp k rq id != absent) = k.rqHasUclamp id := by
    intro id
    unfold readRqUclamp
    cases k.rqHasUclamp id with
    | true => exact present_of_uint32 (rq.uclamp id)
    | false => rfl
  rw [hread, hread]

/-- The clamped utilisation of a runqueue that has both values. -/
theorem sample?_uclamped {k : KernelInfo} {cfsRq : CfsRq} {rq : Rq} (hsmall : cfsRq.avg.Small)
    (huclamp : ∀ id, (rq.uclamp id).toNat < 2 ^ 31)
    (hhas : (k.rqHasUclamp .min && k.rqHasUclamp .max) = true) (ts : UInt64) (cpu : Int32) :
    (TraceCall.cpu .uclampedAvg ts cpu
        (toCInt (clamp cfsRq.avg.utilAvg (readRqUclamp k rq .min)
          (readRqUclamp k rq .max)))).sample? =
      some ⟨.uclampedAvg, ts, cpu,
        clampNat cfsRq.avg.utilAvg.toNat (rq.uclamp .min).toNat (rq.uclamp .max).toNat⟩ := by
  rw [Bool.and_eq_true] at hhas
  have hclamp : (clamp cfsRq.avg.utilAvg (rq.uclamp .min).toUInt64
      (rq.uclamp .max).toUInt64).toNat =
        clampNat cfsRq.avg.utilAvg.toNat (rq.uclamp .min).toNat (rq.uclamp .max).toNat := by
    rw [toNat_clamp, UInt32.toNat_toUInt64, UInt32.toNat_toUInt64]
  simp only [readRqUclamp, hhas.1, hhas.2, if_true]
  rw [sample?_toCInt, hclamp]
  rw [hclamp]
  exact clampNat_lt hsmall.utilAvg (huclamp .min) (huclamp .max)

theorem samples_peltCfs {k : KernelInfo} {f : Firing} {cfsRq : CfsRq} (state : UserState)
    (hhook : f.hook = .peltCfs cfsRq) (hpelt : f.hook.IsRqPelt k) (hreserved : f.reserved = true) :
    (hookCalls k state f).map TraceCall.sample? =
      (rqPeltSamples k state.opts f).map some := by
  rw [hhook] at hpelt
  obtain ⟨hroot, hsmall, huclamp⟩ := hpelt
  obtain ⟨rq, hrq, -⟩ := cfsRqIsRoot_eq_true.mp hroot
  have huclamped := fun hhas : (k.rqHasUclamp .min && k.rqHasUclamp .max) = true =>
    sample?_uclamped hsmall (huclamp rq hrq) hhas f.now rq.cpu
  simp only [hookCalls, tracer, fire, hhook, handlePeltCfs, hroot, hrq, hreserved, rqPeltSamples,
    cfsSamples, reserve_true, if_true, Option.bind_eq_bind, Option.bind_some, Option.pure_def,
    Option.map_some, Option.toList_some, List.flatMap_cons, List.flatMap_nil, List.append_nil,
    handleRecord, handleRqPeltEvent, rqUtilAvgCalls, PeltType.ofCode_code,
    PeltType.code_beq_code, reduceCtorEq, decide_false,
    present_of_small hsmall.loadAvg, present_of_small hsmall.runnableAvg,
    present_of_small hsmall.utilAvg, bne_self_eq_false, Bool.and_true, Bool.and_false,
    Bool.false_and, callsIf_false, callsIf_true, uclamp_present, List.map_append]
  congr 1
  · congr 1
    · cases state.opts.loadAvgCpu <;> simp [sample?_toCInt hsmall.loadAvg]
    · cases state.opts.runnableAvgCpu <;> simp [sample?_toCInt hsmall.runnableAvg]
  · cases state.opts.utilAvgCpu with
    | false => rfl
    | true =>
        cases hhas : (k.rqHasUclamp .min && k.rqHasUclamp .max) with
        | false => simp [sample?_toCInt hsmall.utilAvg]
        | true => simp [sample?_toCInt hsmall.utilAvg, huclamped hhas]

/-- The records of a scheduling class, as the handler sees them. -/
theorem hookCalls_class (state : UserState) (fieldExists : Bool) (type : PeltType)
    (loadAvg utilAvg now : UInt64) (rq : Rq) (slot : RqPeltEvent) :
    (((submitClassPelt fieldExists type loadAvg utilAvg now rq (some slot)).map
        Record.rqPelt).toList).flatMap (handleRecord state) =
      callsIf fieldExists
        (callsIf (state.opts.loadAvgCpu && loadAvg != absent)
            [.cpu .loadAvg now rq.cpu (toCInt loadAvg)] ++
          callsIf (decide (type = .thermal) && state.opts.loadAvgThermal)
            [.cpu .loadAvgThermal now rq.cpu (toCInt loadAvg)] ++
          callsIf (utilAvg != absent) (match type with
            | .cfs => callsIf state.opts.utilAvgCpu [.cpu .utilAvg now rq.cpu (toCInt utilAvg)]
            | .rt => callsIf state.opts.utilAvgRt [.cpu .utilAvgRt now rq.cpu (toCInt utilAvg)]
            | .dl => callsIf state.opts.utilAvgDl [.cpu .utilAvgDl now rq.cpu (toCInt utilAvg)]
            | .irq => callsIf state.opts.utilAvgIrq [.cpu .utilAvgIrq now rq.cpu (toCInt utilAvg)]
            | .thermal => [])) := by
  cases fieldExists with
  | false => rfl
  | true =>
      cases type <;> simp [submitClassPelt, handleRecord, handleRqPeltEvent, rqUtilAvgCalls]

theorem samples_class {k : KernelInfo} {f : Firing} (state : UserState)
    (hcfs : ∀ cfsRq, f.hook ≠ .peltCfs cfsRq) (hpelt : f.hook.IsRqPelt k)
    (hreserved : f.reserved = true) :
    (hookCalls k state f).map TraceCall.sample? =
      (strayLoad k state.opts f ++ rqPeltSamples k state.opts f).map some := by
  obtain ⟨hook, now, nowNext, thisCpu, reserved, reservedNext, slots⟩ := f
  simp only at hreserved hpelt hcfs
  subst hreserved
  cases hook
  case peltCfs cfsRq => exact absurd rfl (hcfs cfsRq)
  case peltRt rq =>
    simp only [hookCalls, tracer, fire, handlePeltRt, reserve_true, hookCalls_class, strayLoad,
      rqPeltSamples, present_of_small hpelt.utilAvg]
    cases k.rqHasAvgRt <;> cases state.opts.utilAvgRt <;> simp [sample?_toCInt hpelt.utilAvg]
  case peltDl rq =>
    simp only [hookCalls, tracer, fire, handlePeltDl, reserve_true, hookCalls_class, strayLoad,
      rqPeltSamples, present_of_small hpelt.utilAvg]
    cases k.rqHasAvgDl <;> cases state.opts.utilAvgDl <;> simp [sample?_toCInt hpelt.utilAvg]
  case peltIrq rq =>
    simp only [hookCalls, tracer, fire, handlePeltIrq, reserve_true, hookCalls_class, strayLoad,
      rqPeltSamples, present_of_small hpelt.utilAvg]
    cases k.rqHasAvgIrq <;> cases state.opts.utilAvgIrq <;> simp [sample?_toCInt hpelt.utilAvg]
  case peltThermal rq =>
    simp only [hookCalls, tracer, fire, handlePeltThermal, reserve_true, hookCalls_class, strayLoad,
      rqPeltSamples, present_of_small hpelt.loadAvg]
    cases k.rqHasAvgThermal <;> cases state.opts.loadAvgThermal <;>
      cases state.opts.loadAvgCpu <;> simp [sample?_toCInt hpelt.loadAvg]
  all_goals exact hpelt.elim

/-- One hook gives the samples it stands for, after a stray one of the thermal
load. -/
theorem samples_hook {k : KernelInfo} {f : Firing} (state : UserState)
    (hpelt : f.hook.IsRqPelt k) (hreserved : f.reserved = true) :
    (hookCalls k state f).map TraceCall.sample? =
      (strayLoad k state.opts f ++ rqPeltSamples k state.opts f).map some := by
  by_cases hcfs : ∃ cfsRq, f.hook = .peltCfs cfsRq
  · obtain ⟨cfsRq, hhook⟩ := hcfs
    have hstray : strayLoad k state.opts f = [] := by simp only [strayLoad, hhook]
    rw [hstray, List.nil_append]
    exact samples_peltCfs state hhook hpelt hreserved
  · exact samples_class state (fun cfsRq hhook => hcfs ⟨cfsRq, hhook⟩) hpelt hreserved

theorem strayLoad_eq_nil_iff {k : KernelInfo} {opts : SaOpts} {f : Firing} :
    strayLoad k opts f = [] ↔ (opts.loadAvgCpu = true → f.submitsThermal k = false) := by
  unfold strayLoad Firing.submitsThermal
  split
  next rq => cases k.rqHasAvgThermal <;> cases opts.loadAvgCpu <;> simp
  next => simp

/-! ## One hook of a session -/

/-- The stray load of a session: the program has to be loaded. -/
def sessionStray (k : KernelInfo) (opts : SaOpts) (f : Firing) : List CpuSample :=
  if autoload opts f.hook.program then strayLoad k opts f else []

/-- A program that is not loaded would have nothing to show. -/
theorem rqPeltSamples_of_disabled {k : KernelInfo} {opts : SaOpts} {f : Firing}
    (hpelt : f.hook.IsRqPelt k) (hautoload : autoload opts f.hook.program = false) :
    rqPeltSamples k opts f = [] := by
  obtain ⟨hook, now, nowNext, thisCpu, reserved, reservedNext, slots⟩ := f
  rw [autoload_eq] at hautoload
  cases hook
  case peltCfs cfsRq =>
    simp only [Hook.program, alwaysDisabled, Program.enabledBy, List.any_cons, List.any_nil,
      SaOpts.isOn, Bool.or_false] at hautoload
    have hoff : opts.loadAvgCpu = false ∧ opts.runnableAvgCpu = false ∧
        opts.utilAvgCpu = false := by
      simpa using hautoload
    simp only [rqPeltSamples, cfsSamples, hoff, samplesIf_false, List.append_nil]
    split <;> rfl
  case peltRt | peltDl | peltIrq | peltThermal =>
    simp only [Hook.program, alwaysDisabled, Program.enabledBy, List.any_cons, List.any_nil,
      SaOpts.isOn, Bool.or_false] at hautoload
    simp_all [rqPeltSamples]
  all_goals exact hpelt.elim

/-- A hook of a session gives its samples, after a stray one of the thermal load. -/
theorem samples_step {k : KernelInfo} {f : Firing} (state : UserState)
    (hpelt : f.hook.IsRqPelt k) (hreserved : f.reserved = true) (maps : BpfMaps) :
    ((sessionTracer k state).step maps f).2.map TraceCall.sample? =
      (sessionStray k state.opts f ++ rqPeltSamples k state.opts f).map some := by
  cases hautoload : autoload state.opts f.hook.program with
  | true =>
      -- These programs do not use the maps.
      have hstep : ((tracer k state).step maps f).2 = hookCalls k state f := by
        obtain ⟨hook, now, nowNext, thisCpu, reserved, reservedNext, slots⟩ := f
        cases hook <;> first | rfl | exact hpelt.elim
      rw [step_sessionTracer_of_enabled hautoload, hstep, sessionStray, if_pos hautoload]
      exact samples_hook state hpelt hreserved
  | false =>
      rw [step_sessionTracer_of_disabled hautoload, sessionStray,
        if_neg (Bool.eq_false_iff.mp hautoload), rqPeltSamples_of_disabled hpelt hautoload]
      rfl

theorem sessionStray_eq_nil_iff {k : KernelInfo} {opts : SaOpts} {f : Firing} :
    sessionStray k opts f = [] ↔
      (opts.loadAvgCpu = true → opts.loadAvgThermal = true → f.submitsThermal k = false) := by
  by_cases hthermal : ∃ rq, f.hook = .peltThermal rq
  · obtain ⟨rq, hhook⟩ := hthermal
    have hautoload : autoload opts f.hook.program = opts.loadAvgThermal := by
      rw [autoload_eq, hhook]
      simp [Hook.program, alwaysDisabled, Program.enabledBy, SaOpts.isOn]
    rw [sessionStray, hautoload]
    cases opts.loadAvgThermal with
    | true => simpa using strayLoad_eq_nil_iff
    | false => simp
  · have hnone : f.submitsThermal k = false := by
      unfold Firing.submitsThermal
      split
      next rq hhook => exact absurd ⟨rq, hhook⟩ hthermal
      next => rfl
    refine iff_of_true ?_ fun _ _ => hnone
    rw [sessionStray, strayLoad_eq_nil_iff.mpr fun _ => hnone, ite_self]

/-! ## Runs of hooks -/

theorem samples_run {k : KernelInfo} {run : List Firing} (state : UserState)
    (hrun : RqPeltRun k run) (maps : BpfMaps) :
    ((sessionTracer k state).outputs maps run).map TraceCall.sample? =
      (run.flatMap fun f =>
        sessionStray k state.opts f ++ rqPeltSamples k state.opts f).map some := by
  induction run generalizing maps with
  | nil => rfl
  | cons f rest ih =>
      obtain ⟨⟨hpelt, hreserved⟩, hrest⟩ := List.forall_mem_cons.mp hrun
      rw [Transducer.outputs_cons, List.map_append, samples_step state hpelt hreserved,
        ih hrest, List.flatMap_cons, ← List.map_append]

/-- A `load_avg` sample that a hook stands for is the load of a CFS update. -/
theorem loadAvg_mem_rqPeltSamples {k : KernelInfo} {opts : SaOpts} {f : Firing} {ts : UInt64}
    {cpu : Int32} {value : Nat} (hmem : ⟨.loadAvg, ts, cpu, value⟩ ∈ rqPeltSamples k opts f) :
    ∃ cfsRq rq, f.hook = .peltCfs cfsRq ∧ rqOf k cfsRq = some rq ∧ ts = f.now ∧
      cpu = rq.cpu ∧ value = cfsRq.avg.loadAvg.toNat := by
  unfold rqPeltSamples at hmem
  split at hmem
  next cfsRq hhook =>
    split at hmem
    next rq hrq =>
      refine ⟨cfsRq, rq, hhook, hrq, ?_⟩
      simp only [cfsSamples, List.mem_append] at hmem
      rcases hmem with (hload | hrunnable) | hutil
      · cases hopt : opts.loadAvgCpu <;> simp [hopt] at hload
        exact hload
      · cases hopt : opts.runnableAvgCpu <;> simp [hopt] at hrunnable
      · cases hopt : opts.utilAvgCpu <;> simp [hopt] at hutil
        cases hhas : (k.rqHasUclamp .min && k.rqHasUclamp .max) <;> simp [hhas] at hutil
    next => exact absurd hmem List.not_mem_nil
  all_goals simp [samplesIf] at hmem

/-- The calls of a session are the samples of its hooks, the CPU `load_avg` counter
carrying CFS load only, if and only if no thermal record is submitted while both the
`load_avg` options of CPUs and of the thermal pressure are on. -/
theorem showsRqPelt_iff {k : KernelInfo} {run : List Firing} (state : UserState)
    (hrun : RqPeltRun k run) (maps : BpfMaps) :
    ShowsRqPelt k state.opts run ((sessionTracer k state).outputs maps run) ↔
      (state.opts.loadAvgCpu = true → state.opts.loadAvgThermal = true →
        ∀ f ∈ run, f.submitsThermal k = false) := by
  have hsamples := samples_run state hrun maps
  constructor
  · intro hshows hcpu hthermal f hf
    -- The stray samples of the run must be nothing, hook by hook.
    rw [hshows.samples] at hsamples
    have heq := List.map_injective_iff.mpr (fun _ _ => Option.some.inj) hsamples
    have hstray := eq_nil_of_flatMap_append_eq heq.symm f hf
    exact sessionStray_eq_nil_iff.mp hstray hcpu hthermal
  · intro hthermal
    have hexact : ((sessionTracer k state).outputs maps run).map TraceCall.sample? =
        (run.flatMap (rqPeltSamples k state.opts)).map some := by
      rw [hsamples]
      congr 1
      apply List.flatMap_congr
      intro f hf
      have hstray := sessionStray_eq_nil_iff.mpr fun hcpu hload => hthermal hcpu hload f hf
      rw [hstray, List.nil_append]
    refine ⟨hexact, ?_⟩
    intro ts cpu value hcall
    have hmem := List.mem_map_of_mem (f := TraceCall.sample?) hcall
    rw [hexact, List.mem_map] at hmem
    obtain ⟨sample, hsample, heq⟩ := hmem
    simp only [TraceCall.sample?] at heq
    split at heq
    next hnonneg =>
      rw [Option.some.injEq] at heq
      rw [heq, List.mem_flatMap] at hsample
      obtain ⟨f, hf, hsample⟩ := hsample
      obtain ⟨cfsRq, rq, hhook, hrq, hts, hcpu, hvalue⟩ := loadAvg_mem_rqPeltSamples hsample
      exact ⟨f, hf, cfsRq, rq, hhook, hrq, hts, hcpu, by omega⟩
    next => exact absurd heq (by simp)

/-- A load update of the thermal pressure of CPU 0. -/
def thermalUpdate : Firing :=
  (Hook.peltThermal { Rq.unused 0 with avgThermal := { SchedAvg.zero with loadAvg := 5 } }).firing
    1000 0

/-- A utilisation update of the RT class on CPU 0. -/
def rtUpdate : Firing :=
  (Hook.peltRt { Rq.unused 0 with avgRt := { SchedAvg.zero with utilAvg := 7 } }).firing 2000 0

/-- A CFS update on CPU 0, whose tasks are clamped between 100 and 300. -/
def cfsUpdate : Firing :=
  let rq : Rq := { Rq.unused 0 with
    cfsAddr := 64
    uclamp
      | .min => 100
      | .max => 300 }
  (Hook.peltCfs ⟨64, some rq, rq, { SchedAvg.zero with loadAvg := 11, utilAvg := 40 }⟩).firing
    3000 0

/-- With `--load_avg`, one thermal update is reported as CFS load. -/
theorem showsRqPelt_fails_on_thermal :
    RqPeltRun (.complete (kernelVersion 6 6 0)) [thermalUpdate] ∧
      ¬ ShowsRqPelt (.complete (kernelVersion 6 6 0))
        { SaOpts.initial with loadAvgCpu := true, loadAvgTask := true, loadAvgThermal := true }
        [thermalUpdate]
        ((sessionTracer (.complete (kernelVersion 6 6 0))
            (.initial { SaOpts.initial with
              loadAvgCpu := true, loadAvgTask := true, loadAvgThermal := true })).outputs .empty
          [thermalUpdate]) := by
  refine ⟨?_, ?_⟩
  · intro f hf
    rw [List.mem_singleton] at hf
    subst hf
    exact ⟨⟨by decide, by decide, by decide⟩, rfl⟩
  · intro hshows
    have hsamples := hshows.samples
    revert hsamples
    decide

/-- The options of CPUs show a CFS update whole, and the thermal program is not loaded. -/
theorem showsRqPelt_cfs_and_rt :
    RqPeltRun (.complete (kernelVersion 6 6 0)) [cfsUpdate, rtUpdate, thermalUpdate] ∧
      ShowsRqPelt (.complete (kernelVersion 6 6 0))
        { SaOpts.initial with loadAvgCpu := true, utilAvgCpu := true, utilAvgRt := true }
        [cfsUpdate, rtUpdate, thermalUpdate]
        ((sessionTracer (.complete (kernelVersion 6 6 0))
            (.initial { SaOpts.initial with
              loadAvgCpu := true, utilAvgCpu := true, utilAvgRt := true })).outputs .empty
          [cfsUpdate, rtUpdate, thermalUpdate]) := by
  have hrun : RqPeltRun (.complete (kernelVersion 6 6 0))
      [cfsUpdate, rtUpdate, thermalUpdate] := by
    refine List.forall_mem_cons.mpr ⟨⟨⟨by decide, ⟨by decide, by decide, by decide⟩, ?_⟩, rfl⟩, ?_⟩
    · rintro rq ⟨⟩ id
      cases id <;> decide
    · intro f hf
      simp only [List.mem_cons, List.not_mem_nil, or_false] at hf
      rcases hf with rfl | rfl <;> exact ⟨⟨by decide, by decide, by decide⟩, rfl⟩
  refine ⟨hrun, (showsRqPelt_iff (.initial _) hrun .empty).mpr ?_⟩
  intro _ hthermal
  exact absurd hthermal (by decide)

/-- The CFS update shows its load, its utilisation and this one clamped. -/
example : rqPeltSamples (.complete (kernelVersion 6 6 0))
    { SaOpts.initial with loadAvgCpu := true, utilAvgCpu := true } cfsUpdate =
      [⟨.loadAvg, 3000, 0, 11⟩, ⟨.utilAvg, 3000, 0, 40⟩, ⟨.uclampedAvg, 3000, 0, 100⟩] := by
  decide

end SchedAnalyzer
