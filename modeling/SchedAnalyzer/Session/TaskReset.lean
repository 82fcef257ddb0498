import SchedAnalyzer.Foundation.Lists
import SchedAnalyzer.Trace.TaskNames
import SchedAnalyzer.User.Main
import SchedAnalyzer.User.TaskPelt

/-! # Resetting the tracks of a task that is gone

When a task is freed, one record of zeros is submitted for it, under the comm it
has at that time. The tracks its samples were put on are named after the comm it
had at each sample.
-/

namespace SchedAnalyzer

open Foundation Foundation.CString Foundation.Lists

/-! ## Runs and tracks -/

/-- The task whose averages a hook reports. -/
def Hook.sampled? (k : KernelInfo) : Hook → Option TaskStruct
  | .peltSe se => if entityIsTask k se then some se.task else none
  | .utilEstSe se => if entityIsTask k se then some se.task else none
  | _ => none

/-- The task that a hook frees. -/
def Hook.freed? : Hook → Option TaskStruct
  | .schedProcessFree p => some p
  | _ => none

/-- Updates and frees of tasks. -/
def Hook.IsTaskPelt : Hook → Prop
  | .peltSe _ => True
  | .utilEstSe _ => True
  | .schedProcessFree _ => True
  | _ => False

/-- Such hooks only, and no record dropped. -/
def TaskPeltRun (run : List Firing) : Prop :=
  ∀ f ∈ run, f.hook.IsTaskPelt ∧ f.reserved = true

/-- No `--pid` and no `--comm` was given. -/
def SaOpts.Unfiltered (opts : SaOpts) : Prop :=
  opts.pid = [] ∧ opts.comm = []

/-- The value an event puts on a track. -/
def TrackEvent.valueOn (track : List Char) : TrackEvent → Option Int
  | .counter _ name _ value => if name = track then some value else none
  | _ => none

/-- The values that calls put on a track, in order. -/
def trackValues (track : List Char) (calls : List TraceCall) : List Int :=
  (calls.flatMap TraceCall.run).filterMap (TrackEvent.valueOn track)

/-- In every state reached, if a pid was freed and not used again since, each
track that a sample for it was put on shows 0. -/
def ResetOnFree (k : KernelInfo) (state : UserState) (maps : BpfMaps) (run : List Firing) :
    Prop :=
  ∀ before f after later, run = before ++ f :: after ++ later →
    ∀ p ∈ f.hook.freed?, (∀ g ∈ after, ∀ q ∈ g.hook.sampled? k, q.pid ≠ p.pid) →
      ∀ signal ts name value,
        .task signal ts name p.pid.toInt32 value ∈
            (tracer k state).outputs maps (before ++ f :: after) →
          (trackValues (taskTrackName signal.format name p.pid.toInt32)
            ((tracer k state).outputs maps (before ++ f :: after))).getLast? = some 0

/-- The last value of a track is that of a hook, and is not 0. -/
def LeavesNonzero (k : KernelInfo) (state : UserState) (track : List Char) (g : Firing)
    (after : List Firing) : Prop :=
  (∃ v ≠ 0, (trackValues track (hookCalls k state g)).getLast? = some v) ∧
    ∀ h ∈ after, trackValues track (hookCalls k state h) = []

/-- When a task is freed, its comm is that of every sample for its pid that is the last
one of a track and not 0. -/
def SteadyComm (k : KernelInfo) (state : UserState) (run : List Firing) : Prop :=
  ∀ before g middle f after, run = before ++ g :: middle ++ f :: after →
    ∀ q ∈ g.hook.sampled? k, ∀ p ∈ f.hook.freed?, q.pid = p.pid →
      ∀ signal : TaskSignal, LeavesNonzero k state (signal.track q.taskComm q.pid) g middle →
        q.taskComm = p.taskComm

/-! ## One hook -/

/-- No hook both samples a task and frees one. -/
theorem freed_eq_none_of_sampled {k : KernelInfo} {hook : Hook} {q : TaskStruct}
    (hsampled : hook.sampled? k = some q) : hook.freed? = none := by
  cases hook <;> simp [Hook.freed?, Hook.sampled?] at hsampled ⊢

theorem ignorePidComm_unfiltered {opts : SaOpts} (hopts : opts.Unfiltered) (pid : Int32)
    (comm : List Char) : ignorePidComm opts pid comm = false := by
  obtain ⟨hpid, hcomm⟩ := hopts
  simp [ignorePidComm, hpid, hcomm]

/-- The maps only tell whether the task runs, which is not reported. -/
theorem step_taskPelt {f : Firing} (hhook : f.hook.IsTaskPelt) (k : KernelInfo)
    (state : UserState) (maps : BpfMaps) :
    ((tracer k state).step maps f).2 = hookCalls k state f := by
  obtain ⟨hook, now, nowNext, thisCpu, reserved, reservedNext, slots⟩ := f
  cases hook
  case peltSe se =>
    simp only [hookCalls, tracer, fire, handlePeltSe]
    cases entityIsTask k se <;> cases reserved <;> rfl
  case utilEstSe se =>
    simp only [hookCalls, tracer, fire, handleUtilEstSe]
    cases entityIsTask k se <;> cases reserved <;> rfl
  case schedProcessFree p => rfl
  all_goals exact hhook.elim

theorem call_of_task {e : TaskPeltEvent} {now : UInt64} {p : TaskStruct} (hts : e.ts = now)
    (hpid : e.pid = p.pid.toInt32) (hcomm : cstr e.comm = p.taskComm.text)
    (signal : TaskSignal) :
    e.call signal =
      .task signal now p.taskComm.text p.pid.toInt32 (toCInt (e.value signal)) := by
  rw [TaskPeltEvent.call, hts, hpid, hcomm]

/-- A call of a task-level hook is about the hook's task, under an option that is
on, and that of a free reports 0. -/
theorem mem_hookCalls_task {k : KernelInfo} {state : UserState} {f : Firing}
    (hhook : f.hook.IsTaskPelt) {call : TraceCall} (hcall : call ∈ hookCalls k state f) :
    ∃ p signal value,
      call = .task signal f.now p.taskComm.text p.pid.toInt32 value ∧
        state.opts.isOn signal.option = true ∧
          (f.hook.sampled? k = some p ∨ f.hook.freed? = some p ∧ value = 0) := by
  obtain ⟨hook, now, nowNext, thisCpu, reserved, reservedNext, slots⟩ := f
  cases hook
  case peltSe se =>
    simp only [hookCalls, tracer, fire, handlePeltSe] at hcall
    split at hcall
    next htask =>
      obtain ⟨e, he, hcall⟩ := mem_flatMap_taskPelt.mp hcall
      obtain ⟨content, -, rfl⟩ := Option.map_eq_some_iff.mp he
      obtain ⟨signal, hreports, rfl⟩ := mem_handleTaskPeltEvent hcall
      exact ⟨se.task, signal, _, call_of_task rfl rfl (cstr_readStr _ _ _) signal,
        TaskPeltEvent.isOn_of_reports hreports, Or.inl (if_pos htask)⟩
    next => simp at hcall
  case utilEstSe se =>
    simp only [hookCalls, tracer, fire, handleUtilEstSe] at hcall
    split at hcall
    next htask =>
      obtain ⟨e, he, hcall⟩ := mem_flatMap_taskPelt.mp hcall
      obtain ⟨content, -, rfl⟩ := Option.map_eq_some_iff.mp he
      obtain ⟨signal, hreports, rfl⟩ := mem_handleTaskPeltEvent hcall
      exact ⟨se.task, signal, _, call_of_task rfl rfl (cstr_readStr _ _ _) signal,
        TaskPeltEvent.isOn_of_reports hreports, Or.inl (if_pos htask)⟩
    next => simp at hcall
  case schedProcessFree p =>
    simp only [hookCalls, tracer, fire, handleSchedProcessFree] at hcall
    obtain ⟨e, he, hcall⟩ := mem_flatMap_taskPelt.mp hcall
    obtain ⟨content, -, rfl⟩ := Option.map_eq_some_iff.mp he
    obtain ⟨signal, hreports, rfl⟩ := mem_handleTaskPeltEvent hcall
    refine ⟨p, signal, _, call_of_task rfl rfl (cstr_readStr _ _ _) signal,
        TaskPeltEvent.isOn_of_reports hreports, Or.inr ⟨rfl, ?_⟩⟩
    cases signal <;> rfl
  all_goals exact hhook.elim

/-- A free reports 0 for every signal whose option is on. -/
theorem free_mem_hookCalls {k : KernelInfo} {state : UserState} {f : Firing} {p : TaskStruct}
    (hopts : state.opts.Unfiltered) (hfreed : f.hook.freed? = some p)
    (hreserved : f.reserved = true) {signal : TaskSignal}
    (hopt : state.opts.isOn signal.option = true) :
    .task signal f.now p.taskComm.text p.pid.toInt32 0 ∈ hookCalls k state f := by
  obtain ⟨hook, now, nowNext, thisCpu, reserved, reservedNext, slots⟩ := f
  simp only at hreserved
  subst hreserved
  cases hook <;> simp only [Hook.freed?, reduceCtorEq, Option.some.injEq] at hfreed
  subst hfreed
  simp only [hookCalls, tracer, fire, handleSchedProcessFree, reserve_true, Option.map_some,
    Option.toList_some, List.flatMap_cons, List.flatMap_nil, List.append_nil, handleRecord,
    handleTaskPeltEvent_eq, ignorePidComm_unfiltered hopts, Bool.false_eq_true, if_false]
  refine List.mem_map.mpr ⟨signal, List.mem_filter.mpr ⟨signal.mem_all, ?_⟩, ?_⟩
  · rw [TaskPeltEvent.reports, hopt]
    cases signal <;> rfl
  · rw [TaskPeltEvent.call, cstr_readStr]
    cases signal <;> rfl

/-- A value on a track comes from a sample of the task and signal it is named after. -/
theorem mem_trackValues {k : KernelInfo} {state : UserState} {f : Firing}
    (hhook : f.hook.IsTaskPelt) {track : List Char} {v : Int}
    (hvalue : v ∈ trackValues track (hookCalls k state f)) :
    ∃ p signal value,
      .task signal f.now p.taskComm.text p.pid.toInt32 value ∈ hookCalls k state f ∧
        track = signal.track p.taskComm p.pid ∧ v = value.toInt ∧
          state.opts.isOn signal.option = true ∧
            (f.hook.sampled? k = some p ∨ f.hook.freed? = some p ∧ value = 0) := by
  obtain ⟨event, hevent, hon⟩ := List.mem_filterMap.mp hvalue
  obtain ⟨call, hcall, hrun⟩ := List.mem_flatMap.mp hevent
  obtain ⟨p, signal, value, rfl, hopt, htask⟩ := mem_hookCalls_task hhook hcall
  rw [TaskSignal.run_task, List.mem_singleton] at hrun
  subst hrun
  simp only [TrackEvent.valueOn] at hon
  split at hon
  next hname =>
    exact ⟨p, signal, value, hcall, hname.symm, (Option.some.inj hon).symm, hopt, htask⟩
  next => exact absurd hon (by simp)

theorem toInt_mem_trackValues {calls : List TraceCall} {signal : TaskSignal} {ts : UInt64}
    {name : List Char} {pid value : Int32} (hcall : .task signal ts name pid value ∈ calls) :
    value.toInt ∈ trackValues (taskTrackName signal.format name pid) calls := by
  refine List.mem_filterMap.mpr
    ⟨_, List.mem_flatMap.mpr ⟨_, hcall, signal.run_task .. ▸ List.mem_singleton_self _⟩, ?_⟩
  exact if_pos rfl

/-! ## Runs -/

theorem outputs_taskPelt {k : KernelInfo} {run : List Firing} (state : UserState)
    (hrun : TaskPeltRun run) (maps : BpfMaps) :
    (tracer k state).outputs maps run = run.flatMap (hookCalls k state) := by
  apply Transducer.outputs_eq_flatMap
  intro current f hf
  exact step_taskPelt (hrun f hf).1 k state current

theorem trackValues_flatMap (track : List Char) (run : List Firing)
    (calls : Firing → List TraceCall) :
    trackValues track (run.flatMap calls) = run.flatMap fun f => trackValues track (calls f) := by
  simp only [trackValues, List.flatMap_assoc, List.filterMap_flatMap]

/-- A free under the comm of a sample puts a 0 on the sample's track. -/
theorem zero_mem_trackValues_of_free {k : KernelInfo} {state : UserState} {f : Firing}
    {p : TaskStruct} (hopts : state.opts.Unfiltered) (hfreed : f.hook.freed? = some p)
    (hreserved : f.reserved = true) {signal : TaskSignal}
    (hopt : state.opts.isOn signal.option = true) :
    0 ∈ trackValues (signal.track p.taskComm p.pid) (hookCalls k state f) :=
  toInt_mem_trackValues (free_mem_hookCalls hopts hfreed hreserved hopt)

/-- A freed task has values on the tracks of its comm only. -/
theorem trackValues_free_eq_nil {k : KernelInfo} {state : UserState} {f : Firing}
    {p q : TaskStruct} (hhook : f.hook.IsTaskPelt) (hfreed : f.hook.freed? = some p)
    (hcomm : q.taskComm ≠ p.taskComm) (signal : TaskSignal) :
    trackValues (signal.track q.taskComm q.pid) (hookCalls k state f) = [] := by
  apply List.eq_nil_iff_forall_not_mem.mpr
  intro v hv
  obtain ⟨r, signal', value, -, htrack, -, -, hsource⟩ := mem_trackValues hhook hv
  obtain ⟨hsame, -⟩ := TaskSignal.track_inj htrack
  rcases hsource with hsampled | ⟨hfree, -⟩
  · rw [freed_eq_none_of_sampled hsampled] at hfreed
    cases hfreed
  · obtain rfl := Option.some.inj (hfreed.symm.trans hfree)
    exact hcomm hsame

/-- A sample that is the last value of a track when its task has been freed is 0: it came
before the free, which would else reset the track. -/
theorem eq_zero_of_last_sample {k : KernelInfo} {state : UserState}
    {before first second after later : List Firing} {f x : Firing}
    (hopts : state.opts.Unfiltered) (hreached : TaskPeltRun (first ++ x :: second))
    (hsteady : SteadyComm k state (first ++ x :: second ++ later))
    (hsplit : before ++ f :: after = first ++ x :: second) {p q : TaskStruct}
    (hfreed : f.hook.freed? = some p)
    (hunused : ∀ g ∈ after, ∀ q ∈ g.hook.sampled? k, q.pid ≠ p.pid)
    (hsampled : x.hook.sampled? k = some q) (hpid : q.pid = p.pid) {signal : TaskSignal}
    (hopt : state.opts.isOn signal.option = true) {value : Int}
    (hlast : (trackValues (signal.track q.taskComm q.pid) (hookCalls k state x)).getLast? =
      some value)
    (hquiet : ∀ h ∈ second,
      trackValues (signal.track q.taskComm q.pid) (hookCalls k state h) = []) : value = 0 := by
  by_contra hne
  have hxf : x ≠ f := by
    rintro rfl
    rw [freed_eq_none_of_sampled hsampled] at hfreed
    cases hfreed
  have hxafter : x ∉ after := fun hmem => hunused x hmem q hsampled hpid
  obtain ⟨middle, -, rfl⟩ := split_before hsplit.symm hxf hxafter
  have hcomm : q.taskComm = p.taskComm :=
    hsteady first x middle f (after ++ later) (by simp) q hsampled p hfreed hpid signal
      ⟨⟨value, hne, hlast⟩, fun h hh => hquiet h (List.mem_append_left _ hh)⟩
  have hzero : 0 ∈ trackValues (signal.track p.taskComm p.pid) (hookCalls k state f) :=
    zero_mem_trackValues_of_free hopts hfreed (hreached f (by simp)).2 hopt
  rw [← hcomm, ← hpid, hquiet f (by simp)] at hzero
  exact absurd hzero List.not_mem_nil

/-- While what a task leaves on its tracks has the comm it is freed under, they show 0
from then on, until the pid is used again. -/
theorem resetOnFree_of_steadyComm {k : KernelInfo} {state : UserState} {run : List Firing}
    (hopts : state.opts.Unfiltered) (hrun : TaskPeltRun run) (hsteady : SteadyComm k state run)
    (maps : BpfMaps) : ResetOnFree k state maps run := by
  intro before f after later hsplit p hfreed hunused signal ts name value hcall
  subst hsplit
  have hreached : TaskPeltRun (before ++ f :: after) :=
    fun g hg => hrun g (List.mem_append_left later hg)
  rw [outputs_taskPelt state hreached] at hcall ⊢
  rw [trackValues_flatMap]
  -- The track is that of a sample of the pid, so it has a last value.
  obtain ⟨g, hg, hcall⟩ := List.mem_flatMap.mp hcall
  obtain ⟨q, signal, value, heq, -, -⟩ := mem_hookCalls_task (hreached g hg).1 hcall
  obtain ⟨rfl, -, rfl, hpid, rfl⟩ := TraceCall.task.inj heq
  have hpid := Pid.toInt32_injective hpid
  have hvalue : value.toInt ∈ trackValues (signal.track q.taskComm p.pid) (hookCalls k state g) :=
    toInt_mem_trackValues hcall
  change (List.flatMap (fun f => trackValues (signal.track q.taskComm p.pid)
    (hookCalls k state f)) (before ++ f :: after)).getLast? = some 0
  cases hlast : ((before ++ f :: after).flatMap fun f =>
      trackValues (signal.track q.taskComm p.pid) (hookCalls k state f)).getLast? with
  | none =>
      rw [List.getLast?_eq_none_iff, List.flatMap_eq_nil_iff] at hlast
      exact absurd (hlast g hg ▸ hvalue) List.not_mem_nil
  | some last =>
      rw [Option.some.injEq]
      obtain ⟨first, x, second, hx, hlastx, hquiet⟩ := exists_last_of_getLast?_flatMap hlast
      rw [hx] at hreached hsteady
      obtain ⟨r, signal', value', -, htrack, rfl, hopt, hsource⟩ :=
        mem_trackValues (hreached x (by simp)).1 (List.mem_of_getLast? hlastx)
      obtain ⟨-, hrpid, -⟩ := TaskSignal.track_inj htrack
      rcases hsource with hsampled | ⟨-, rfl⟩
      · rw [htrack] at hlastx hquiet
        exact eq_zero_of_last_sample hopts hreached hsteady hx hfreed hunused hsampled hrpid.symm
          hopt hlastx hquiet
      · rfl

/-- And only then: a free under another comm leaves the track as it is. -/
theorem steadyComm_of_resetOnFree {k : KernelInfo} {state : UserState} {run : List Firing}
    (hrun : TaskPeltRun run) {maps : BpfMaps} (hreset : ResetOnFree k state maps run) :
    SteadyComm k state run := by
  rintro before g middle f after rfl q hsampled p hfreed hpid signal ⟨⟨v, hne, hlast⟩, hquiet⟩
  by_contra hcomm
  have hreached : TaskPeltRun (before ++ g :: middle ++ [f]) := by
    intro h hh
    apply hrun h
    simp only [List.mem_append, List.mem_cons, List.not_mem_nil, or_false] at hh ⊢
    tauto
  obtain ⟨r, signal', value, hcall, htrack, -, -, -⟩ :=
    mem_trackValues (hreached g (by simp)).1 (List.mem_of_getLast? hlast)
  obtain ⟨-, hrpid, -⟩ := TaskSignal.track_inj htrack
  have hzero := hreset (before ++ g :: middle) f [] after (by simp) p hfreed (by simp) signal'
    g.now r.taskComm.text value (by
      rw [outputs_taskPelt state hreached, ← hpid, hrpid]
      exact List.mem_flatMap.mpr ⟨g, by simp, hcall⟩)
  rw [outputs_taskPelt state hreached, ← hpid, hrpid] at hzero
  change (trackValues (signal'.track r.taskComm r.pid) _).getLast? = some 0 at hzero
  have hmiddle : (middle.flatMap fun h =>
      trackValues (signal.track q.taskComm q.pid) (hookCalls k state h)) = [] :=
    List.flatMap_eq_nil_iff.mpr hquiet
  have hfree : trackValues (signal.track q.taskComm q.pid) (hookCalls k state f) = [] :=
    trackValues_free_eq_nil (hreached f (by simp)).1 hfreed hcomm signal
  have hg : trackValues (signal.track q.taskComm q.pid) (hookCalls k state g) ≠ [] :=
    fun hnil => absurd (hnil ▸ hlast) (by simp)
  rw [← htrack, trackValues_flatMap, List.flatMap_append, List.flatMap_append, List.flatMap_cons,
    hmiddle, List.flatMap_singleton, hfree, List.append_nil, List.append_nil,
    List.getLast?_append_of_ne_nil _ hg, hlast] at hzero
  exact hne (Option.some.inj hzero)

/-- The tracks of a task that is freed show 0 until its pid is used again, if and only if
what it leaves on them has the comm it is freed under. -/
theorem resetOnFree_iff_steadyComm {k : KernelInfo} {state : UserState} {run : List Firing}
    (hopts : state.opts.Unfiltered) (hrun : TaskPeltRun run) (maps : BpfMaps) :
    ResetOnFree k state maps run ↔ SteadyComm k state run :=
  ⟨steadyComm_of_resetOnFree hrun,
    fun hsteady => resetOnFree_of_steadyComm hopts hrun hsteady maps⟩

/-- A task with pid 42. -/
def someTask (comm : String) : TaskStruct :=
  .plain ⟨42, by decide⟩ comm

/-- It runs under one comm and is freed under another, or the same. -/
def shortLife (comm commAtFree : String) : List Firing :=
  [(Hook.peltSe ⟨false, { SchedAvg.zero with utilAvg := 300 }, someTask comm⟩).firing 1000 0,
    (Hook.schedProcessFree (someTask commAtFree)).firing 2000 0]

theorem taskPeltRun_shortLife (comm commAtFree : String) :
    TaskPeltRun (shortLife comm commAtFree) := by
  intro f hf
  simp only [shortLife, List.mem_cons, List.not_mem_nil, or_false] at hf
  rcases hf with rfl | rfl <;> exact ⟨trivial, rfl⟩

/-- After an exec the track under the old comm keeps its last value. -/
theorem resetOnFree_fails_after_exec :
    { SaOpts.initial with utilAvgTask := true }.Unfiltered ∧
      TaskPeltRun (shortLife "sh" "ls") ∧
        ¬ ResetOnFree (.complete (kernelVersion 6 6 0))
          (.initial { SaOpts.initial with utilAvgTask := true }) .empty
          (shortLife "sh" "ls") := by
  refine ⟨⟨rfl, rfl⟩, taskPeltRun_shortLife "sh" "ls", ?_⟩
  intro hreset
  have hlast := hreset (shortLife "sh" "ls" |>.take 1)
    ((Hook.schedProcessFree (someTask "ls")).firing 2000 0) [] [] rfl (someTask "ls") rfl
    (by simp) .utilAvg 1000 "sh".toList 300 (by decide)
  revert hlast
  decide

theorem resetOnFree_same_comm :
    ResetOnFree (.complete (kernelVersion 6 6 0))
      (.initial { SaOpts.initial with utilAvgTask := true }) .empty (shortLife "sh" "sh") := by
  refine (resetOnFree_iff_steadyComm ⟨rfl, rfl⟩ (taskPeltRun_shortLife "sh" "sh") .empty).mpr ?_
  have hcomm : ∀ g ∈ shortLife "sh" "sh", ∀ q, g.hook.sampled? (.complete (kernelVersion 6 6 0)) =
      some q ∨ g.hook.freed? = some q → q.comm = "sh".toList := by
    intro g hg q hq
    simp only [shortLife, List.mem_cons, List.not_mem_nil, or_false] at hg
    rcases hg with rfl | rfl <;>
      simp [Hook.firing, Hook.sampled?, Hook.freed?, entityIsTask, KernelInfo.complete,
        someTask, TaskStruct.plain] at hq <;> simp [← hq]
  intro before g middle f after hsplit q hq p hp _ _ _
  have hg := hcomm g (hsplit ▸ by simp) q (Or.inl hq)
  have hf := hcomm f (hsplit ▸ by simp) p (Or.inr hp)
  simp only [TaskStruct.taskComm, hg, hf]

end SchedAnalyzer
