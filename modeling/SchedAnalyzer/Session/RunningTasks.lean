import SchedAnalyzer.Foundation.BoundedMap
import SchedAnalyzer.Foundation.Lists
import SchedAnalyzer.Session.LbMap
import SchedAnalyzer.Session.Recorder

/-! # The running tasks

A context switch takes the task that leaves out of the `sched_switch` map and puts the
task that comes in. The records of a task say that it runs if the map has its pid, and
the CPUs share the map. `main` never enables the program of the context switches, so in
a session the map stays empty.
-/

namespace SchedAnalyzer

open Foundation Foundation.BoundedMap Foundation.Lists

/-- The task that a context switch puts on a CPU. -/
def Firing.switchedTo (cpu : Int32) (f : Firing) : Option Pid :=
  match f.hook with
  | .schedSwitch _ next => if f.thisCpu = cpu then some next.pid else none
  | _ => none

/-- The task that a CPU has switched to last. -/
def currentOn (run : List Firing) (cpu : Int32) : Option Pid :=
  (run.filterMap (Firing.switchedTo cpu)).getLast?

/-- A switch takes the task off that its CPU has switched to, and a task that is no idle
task is on one CPU at a time. -/
structure SwitchesAfter (before : List Firing) (cpu : Int32) (prev next : TaskStruct) : Prop where
  current : ∀ pid ∈ currentOn before cpu, pid = prev.pid
  elsewhere : ∀ other, other ≠ cpu → ∀ pid ∈ currentOn before other, pid.number ≠ 0 →
    pid ≠ prev.pid ∧ pid ≠ next.pid

/-- The context switches of a run as the scheduler does them. -/
def ContextSwitches (run : List Firing) : Prop :=
  ∀ before f after, run = before ++ f :: after → ∀ prev next, f.hook = .schedSwitch prev next →
    SwitchesAfter before f.thisCpu prev next

/-- A record of a task says that it runs exactly if a CPU has switched to it last. -/
def TracksRunning (k : KernelInfo) (run : List Firing) : Prop :=
  ∀ before f after, run = before ++ f :: after → ∀ se,
    f.hook = .peltSe se ∨ f.hook = .utilEstSe se → se.task.pid.number ≠ 0 →
      ∀ e, .taskPelt e ∈ (fire k ((submitter k).final .empty before) f).2 →
        (e.running = 1 ∧ ∃ cpu, currentOn before cpu = some se.task.pid) ∨
          (e.running = 0 ∧ ¬ ∃ cpu, currentOn before cpu = some se.task.pid)

/-- No switch of a run finds the map full. -/
def NeverFull (k : KernelInfo) (run : List Firing) : Prop :=
  ∀ before f after, run = before ++ f :: after → ∀ prev next, f.hook = .schedSwitch prev next →
    let left := ((submitter k).final .empty before).schedSwitch.delete prev.pid.toInt32
    (left.lookup next.pid.toInt32).isSome = true ∨ left.size < 8192

/-- In a session, where `main` disables the program of the context switches, no record says
that its task runs. -/
def NoneRunning (k : KernelInfo) (run : List Firing) : Prop :=
  ∀ opts e, .taskPelt e ∈ (sessionSubmitter k opts).outputs .empty run → e.running = 0

/-- What the running field of the records says. -/
structure RunningField (k : KernelInfo) (run : List Firing) : Prop where
  tracks : TracksRunning k run
  neverFull : NeverFull k run
  session : NoneRunning k run

/-! ## One hook -/

/-- What a hook does to the map. -/
def Firing.switchOperations (f : Firing) : List (Operation Int32 Int32) :=
  match f.hook with
  | .schedSwitch prev next => [.delete prev.pid.toInt32, .update next.pid.toInt32 1]
  | _ => []

theorem schedSwitch_fire (k : KernelInfo) (maps : BpfMaps) (f : Firing) :
    (fire k maps f).1.schedSwitch = maps.schedSwitch.run f.switchOperations := by
  obtain ⟨hook, now, nowNext, thisCpu, reserved, reservedNext, slots⟩ := f
  cases hook <;> rfl

/-- The map after a run has seen the switches of its hooks. -/
theorem schedSwitch_final (k : KernelInfo) (maps : BpfMaps) (run : List Firing) :
    ((submitter k).final maps run).schedSwitch =
      maps.schedSwitch.run (run.flatMap Firing.switchOperations) := by
  induction run generalizing maps with
  | nil => rfl
  | cons f rest ih =>
      rw [Transducer.final_cons, ih, List.flatMap_cons, BoundedMap.run, BoundedMap.run,
        List.foldl_append]
      exact congrArg (List.foldl apply · _) (schedSwitch_fire k maps f)

theorem currentOn_concat (run : List Firing) (f : Firing) (cpu : Int32) :
    currentOn (run ++ [f]) cpu = (f.switchedTo cpu).or (currentOn run cpu) := by
  rw [currentOn, List.filterMap_append, currentOn]
  cases hswitch : f.switchedTo cpu with
  | none => simp [hswitch]
  | some pid => simp [hswitch]

/-- The tasks of a context switch. -/
def Firing.switchedTasks (f : Firing) : Option (TaskStruct × TaskStruct) :=
  match f.hook with
  | .schedSwitch prev next => some (prev, next)
  | _ => none

theorem Firing.hook_of_some {f : Firing} {prev next : TaskStruct}
    (hswitch : f.switchedTasks = some (prev, next)) : f.hook = .schedSwitch prev next := by
  unfold Firing.switchedTasks at hswitch
  split at hswitch
  next prev' next' hhook =>
    cases hswitch
    exact hhook
  next => cases hswitch

theorem Firing.switchOperations_of_none {f : Firing} (hswitch : f.switchedTasks = none) :
    f.switchOperations = [] := by
  obtain ⟨hook, now, nowNext, thisCpu, reserved, reservedNext, slots⟩ := f
  cases hook <;> first | rfl | cases hswitch

theorem Firing.switchedTo_of_none {f : Firing} (hswitch : f.switchedTasks = none) (cpu : Int32) :
    f.switchedTo cpu = none := by
  obtain ⟨hook, now, nowNext, thisCpu, reserved, reservedNext, slots⟩ := f
  cases hook <;> first | rfl | cases hswitch

theorem switchOperations_concat (run : List Firing) {f : Firing} {prev next : TaskStruct}
    (hhook : f.hook = .schedSwitch prev next) :
    (run ++ [f]).flatMap Firing.switchOperations =
      run.flatMap Firing.switchOperations ++ [.delete prev.pid.toInt32] ++
        [.update next.pid.toInt32 1] := by
  simp [Firing.switchOperations, hhook]

theorem currentOn_switch (run : List Firing) {f : Firing} {prev next : TaskStruct}
    (hhook : f.hook = .schedSwitch prev next) (cpu : Int32) :
    currentOn (run ++ [f]) cpu = if f.thisCpu = cpu then some next.pid else currentOn run cpu := by
  rw [currentOn_concat, Firing.switchedTo, hhook]
  change (if f.thisCpu = cpu then some next.pid else none).or _ = _
  split <;> rfl

theorem mem_cpus_of_currentOn {run : List Firing} {cpus : Finset Int32}
    (hcpus : ∀ f ∈ run, f.thisCpu ∈ cpus) {cpu : Int32} {pid : Pid}
    (hcurrent : currentOn run cpu = some pid) : cpu ∈ cpus := by
  obtain ⟨f, hf, hswitch⟩ := List.mem_filterMap.mp (List.mem_of_getLast? hcurrent)
  unfold Firing.switchedTo at hswitch
  split at hswitch
  next =>
    split at hswitch
    next hcpu => exact hcpu ▸ hcpus f hf
    next => cases hswitch
  next => cases hswitch

/-- The running field of the records of a task. -/
theorem running_of_mem_fire {k : KernelInfo} {maps : BpfMaps} {f : Firing} {se : SchedEntity}
    (hhook : f.hook = .peltSe se ∨ f.hook = .utilEstSe se) {e : TaskPeltEvent}
    (he : .taskPelt e ∈ (fire k maps f).2) : e.running = isRunning maps.schedSwitch se.task := by
  obtain ⟨hook, now, nowNext, thisCpu, reserved, reservedNext, slots⟩ := f
  rcases hhook with rfl | rfl
  · simp only [fire, handlePeltSe, Option.mem_toList, Option.map_eq_some_iff] at he
    obtain ⟨event, hevent, hrecord⟩ := he
    cases hrecord
    split at hevent
    next =>
      obtain ⟨content, -, rfl⟩ := Option.map_eq_some_iff.mp hevent
      rfl
    next => cases hevent
  · simp only [fire, handleUtilEstSe, Option.mem_toList, Option.map_eq_some_iff] at he
    obtain ⟨event, hevent, hrecord⟩ := he
    cases hrecord
    split at hevent
    next =>
      obtain ⟨content, -, rfl⟩ := Option.map_eq_some_iff.mp hevent
      rfl
    next => cases hevent

/-- With an empty map no record says that its task runs. -/
theorem running_of_empty {k : KernelInfo} {maps : BpfMaps} (hempty : maps.schedSwitch = .empty)
    {f : Firing} {e : TaskPeltEvent} (he : .taskPelt e ∈ (fire k maps f).2) : e.running = 0 := by
  have hring : Ring.taskPelt = f.hook.program.ring := ring_of_mem_fire he
  have hnone : ∀ p : TaskStruct, isRunning maps.schedSwitch p = 0 := by
    intro p
    rw [isRunning, hempty, lookup_empty]
    rfl
  cases hhook : f.hook with
  | peltSe se => exact (running_of_mem_fire (.inl hhook) he).trans (hnone _)
  | utilEstSe se => exact (running_of_mem_fire (.inr hhook) he).trans (hnone _)
  | schedProcessFree p =>
      simp only [fire, hhook, handleSchedProcessFree, Option.mem_toList, Option.map_eq_some_iff]
        at he
      obtain ⟨event, ⟨content, -, rfl⟩, hrecord⟩ := he
      cases hrecord
      rfl
  | _ =>
      rw [hhook] at hring
      cases hring

/-- The programs that `main` enables leave the map as it is. -/
theorem schedSwitch_step_sessionSubmitter (k : KernelInfo) (opts : SaOpts) (maps : BpfMaps)
    (f : Firing) :
    ((sessionSubmitter k opts).step maps f).1.schedSwitch = maps.schedSwitch := by
  cases hautoload : autoload opts f.hook.program with
  | false => simp only [sessionSubmitter, hautoload, Bool.false_eq_true, if_false]
  | true =>
      have hnone : f.switchedTasks = none := by
        unfold Firing.switchedTasks
        split
        next prev next hhook =>
          rw [hhook] at hautoload
          exact absurd rfl (isOn_of_autoload hautoload).2.2
        next => rfl
      rw [sessionSubmitter_step hautoload, schedSwitch_fire, f.switchOperations_of_none hnone]
      rfl

theorem noneRunning (k : KernelInfo) (run : List Firing) : NoneRunning k run := by
  intro opts e he
  have hkept : ∀ maps : BpfMaps, maps.schedSwitch = .empty → ∀ f,
      ((sessionSubmitter k opts).step maps f).1.schedSwitch = .empty := by
    intro maps hempty f
    rw [schedSwitch_step_sessionSubmitter]
    exact hempty
  have hgood : ∀ maps : BpfMaps, maps.schedSwitch = .empty → ∀ f,
      ∀ record ∈ ((sessionSubmitter k opts).step maps f).2,
        ∀ e, record = .taskPelt e → e.running = 0 := by
    rintro maps hempty f record hrecord e rfl
    simp only [sessionSubmitter] at hrecord
    split at hrecord
    next => exact running_of_empty hempty hrecord
    next => exact absurd hrecord List.not_mem_nil
  exact (sessionSubmitter k opts).forall_mem_outputs_of_invariant hkept hgood rfl run _ he e rfl

/-! ## Runs -/

section Runs

variable {run : List Firing}

theorem ContextSwitches.of_concat {f : Firing} (hswitches : ContextSwitches (run ++ [f])) :
    ContextSwitches run := by
  intro before g after heq
  apply hswitches before g (after ++ [f])
  rw [heq]
  simp

theorem ContextSwitches.concat (hswitches : ContextSwitches run) {f : Firing}
    (hlast : ∀ prev next, f.hook = .schedSwitch prev next →
      SwitchesAfter run f.thisCpu prev next) : ContextSwitches (run ++ [f]) :=
  forall_splits_concat hswitches hlast

/-- The map holds the tasks that the CPUs have switched to last. -/
structure HoldsCurrent (run : List Firing) : Prop where
  held : ∀ key, (latest (run.flatMap Firing.switchOperations) key).isSome = true →
    ∃ cpu pid, currentOn run cpu = some pid ∧ key = pid.toInt32
  holds : ∀ cpu pid, currentOn run cpu = some pid → pid.number ≠ 0 →
    (latest (run.flatMap Firing.switchOperations) pid.toInt32).isSome = true

/-- A switch moves one task out and one in. -/
theorem HoldsCurrent.switch (hbefore : HoldsCurrent run) {f : Firing} {prev next : TaskStruct}
    (hhook : f.hook = .schedSwitch prev next) (hafter : SwitchesAfter run f.thisCpu prev next) :
    HoldsCurrent (run ++ [f]) := by
  have hlatest : ∀ key, latest ((run ++ [f]).flatMap Firing.switchOperations) key =
      if next.pid.toInt32 = key then some 1
      else if prev.pid.toInt32 = key then none
      else latest (run.flatMap Firing.switchOperations) key := by
    intro key
    rw [switchOperations_concat run hhook, latest_concat_update, latest_concat_delete]
  constructor
  · intro key hsome
    rw [hlatest] at hsome
    split at hsome
    next heq => exact ⟨f.thisCpu, next.pid, by rw [currentOn_switch run hhook, if_pos rfl], heq.symm⟩
    next =>
      split at hsome
      next => exact Bool.noConfusion hsome
      next hleft =>
        obtain ⟨cpu, pid, hcurrent, rfl⟩ := hbefore.held key hsome
        -- The task that leaves this CPU is the one that it had.
        have hother : f.thisCpu ≠ cpu := by
          rintro rfl
          exact hleft (congrArg Pid.toInt32 (hafter.current pid hcurrent).symm)
        exact ⟨cpu, pid, by rw [currentOn_switch run hhook, if_neg hother, hcurrent], rfl⟩
  · intro cpu pid hcurrent hpid
    rw [currentOn_switch run hhook] at hcurrent
    rw [hlatest]
    split at hcurrent
    next =>
      cases hcurrent
      rw [if_pos rfl]
      rfl
    next hother =>
      obtain ⟨hprev, hnext⟩ := hafter.elsewhere cpu (Ne.symm hother) pid hcurrent hpid
      rw [if_neg fun heq => hnext (Pid.toInt32_injective heq).symm,
        if_neg fun heq => hprev (Pid.toInt32_injective heq).symm]
      exact hbefore.holds cpu pid hcurrent hpid

theorem holdsCurrent (hswitches : ContextSwitches run) : HoldsCurrent run := by
  induction run using List.reverseRecOn with
  | nil =>
      constructor
      · intro key hsome
        exact Bool.noConfusion hsome
      · intro cpu pid hcurrent
        cases hcurrent
  | append_singleton run f ih =>
      have hbefore := ih hswitches.of_concat
      cases hswitch : f.switchedTasks with
      | none =>
          have hoperations := f.switchOperations_of_none hswitch
          have hcurrent : ∀ cpu, currentOn (run ++ [f]) cpu = currentOn run cpu := by
            intro cpu
            rw [currentOn_concat, f.switchedTo_of_none hswitch cpu, Option.none_or]
          constructor
          · simpa [hoperations, hcurrent] using hbefore.held
          · simpa [hoperations, hcurrent] using hbefore.holds
      | some tasks =>
          obtain ⟨prev, next⟩ := tasks
          have hhook := f.hook_of_some hswitch
          exact hbefore.switch hhook (hswitches run f [] rfl prev next hhook)

/-- The switches of a run on a limited number of CPUs fit the map. -/
theorem fits_switchOperations {cpus : Finset Int32} (hroom : cpus.card ≤ 8192)
    (hcpus : ∀ f ∈ run, f.thisCpu ∈ cpus) (hswitches : ContextSwitches run) :
    Fits 8192 (run.flatMap Firing.switchOperations) := by
  induction run using List.reverseRecOn with
  | nil => exact fits_of_updates hroom fun key value hupdate => absurd hupdate List.not_mem_nil
  | append_singleton run f ih =>
      have hbefore := ih (fun g hg => hcpus g (List.mem_append_left _ hg)) hswitches.of_concat
      -- Behind the switch the map has no more than one task for each CPU.
      have hkeys : ∀ key, (latest ((run ++ [f]).flatMap Firing.switchOperations) key).isSome = true →
          key ∈ cpus.image fun cpu => ((currentOn (run ++ [f]) cpu).map Pid.toInt32).getD 0 := by
        intro key hsome
        obtain ⟨cpu, pid, hcurrent, rfl⟩ := (holdsCurrent hswitches).held key hsome
        refine Finset.mem_image.mpr ⟨cpu, mem_cpus_of_currentOn hcpus hcurrent, ?_⟩
        rw [hcurrent]
        rfl
      have hcard := (Finset.card_image_le (s := cpus)
        (f := fun cpu => ((currentOn (run ++ [f]) cpu).map Pid.toInt32).getD 0)).trans hroom
      cases hswitch : f.switchedTasks with
      | none =>
          rw [List.flatMap_append, List.flatMap_singleton, f.switchOperations_of_none hswitch,
            List.append_nil]
          exact hbefore
      | some tasks =>
          obtain ⟨prev, next⟩ := tasks
          have hoperations := switchOperations_concat run (f.hook_of_some hswitch)
          rw [hoperations] at hkeys ⊢
          exact (hbefore.concat_delete prev.pid.toInt32).concat hcard hkeys

/-- A switch that fits finds its task in the map, or room for it. -/
theorem neverFull {cpus : Finset Int32} (k : KernelInfo) (hroom : cpus.card ≤ 8192)
    (hcpus : ∀ f ∈ run, f.thisCpu ∈ cpus) (hswitches : ContextSwitches run) :
    NeverFull k run := by
  intro before f after heq prev next hhook
  have hpart : before ++ [f] <+: run := ⟨after, by rw [heq]; simp⟩
  have hfits : Fits 8192 ((before ++ [f]).flatMap Firing.switchOperations) :=
    Fits.of_prefix (fits_switchOperations hroom hcpus hswitches) (hpart.flatMap _)
  rw [switchOperations_concat before hhook] at hfits
  have hempty : BpfMaps.empty.schedSwitch = .empty := rfl
  apply hfits.room
  intro other
  have hleft : ((submitter k).final .empty before).schedSwitch.delete prev.pid.toInt32 =
      (BoundedMap.empty : SchedSwitchMap).run
        (before.flatMap Firing.switchOperations ++ [.delete prev.pid.toInt32]) := by
    rw [schedSwitch_final, hempty, BoundedMap.run, BoundedMap.run, List.foldl_concat]
    rfl
  rw [hleft, lookup_run_eq_latest (hfits.of_prefix (List.prefix_append _ _))]

/-- The records of a task that is no idle task say that it runs exactly if a CPU has switched
to it last. -/
theorem tracksRunning_of_contextSwitches (k : KernelInfo) {cpus : Finset Int32}
    (hroom : cpus.card ≤ 8192) (hcpus : ∀ f ∈ run, f.thisCpu ∈ cpus)
    (hswitches : ContextSwitches run) : TracksRunning k run := by
  intro before f after heq se hhook hpid e he
  have hbefore : ContextSwitches before := by
    intro earlier g since hsplit
    apply hswitches earlier g (since ++ f :: after)
    rw [heq, hsplit, List.append_assoc, List.cons_append]
  have hcpusBefore : ∀ g ∈ before, g.thisCpu ∈ cpus := by
    intro g hg
    exact hcpus g (heq ▸ List.mem_append_left _ hg)
  have hempty : BpfMaps.empty.schedSwitch = .empty := rfl
  have hheld := holdsCurrent hbefore
  rw [running_of_mem_fire hhook he, isRunning, schedSwitch_final, hempty,
    lookup_run_eq_latest (fits_switchOperations hroom hcpusBefore hbefore)]
  by_cases hcurrent : ∃ cpu, currentOn before cpu = some se.task.pid
  · obtain ⟨cpu, hcpu⟩ := hcurrent
    exact Or.inl ⟨if_pos (hheld.holds cpu _ hcpu hpid), cpu, hcpu⟩
  · refine Or.inr ⟨if_neg fun hsome => hcurrent ?_, hcurrent⟩
    obtain ⟨cpu, pid, hcpu, hkey⟩ := hheld.held _ hsome
    exact ⟨cpu, Pid.toInt32_injective hkey ▸ hcpu⟩

/-- On at most as many CPUs as the map has room for, the programs tell which tasks run, and
the map is never full. `main` leaves the switches out, and its records say nothing. -/
theorem tracksRunning (k : KernelInfo) {cpus : Finset Int32} (hroom : cpus.card ≤ 8192)
    (hcpus : ∀ f ∈ run, f.thisCpu ∈ cpus) (hswitches : ContextSwitches run) :
    RunningField k run where
  tracks := tracksRunning_of_contextSwitches k hroom hcpus hswitches
  neverFull := SchedAnalyzer.neverFull k hroom hcpus hswitches
  session := noneRunning k run

end Runs

/-- The idle task of a CPU. -/
def swapper : TaskStruct :=
  .plain ⟨0, Nat.zero_le _⟩ "swapper"

/-- A task of a shell. -/
def shellTask : TaskStruct :=
  .plain ⟨7, by decide⟩ "sh"

/-- An entity of the task. -/
def shellEntity : SchedEntity :=
  ⟨false, .zero, shellTask⟩

/-- A task that moves from one CPU to another, with a record in between and at the end. -/
def movingTask : List Firing :=
  [(Hook.schedSwitch swapper shellTask).firing 1000 0,
    (Hook.schedSwitch shellTask swapper).firing 2000 0,
    (Hook.peltSe shellEntity).firing 3000 0,
    (Hook.schedSwitch swapper shellTask).firing 4000 1,
    (Hook.peltSe shellEntity).firing 5000 1]

/-- The switches before the task comes back are all on the first CPU. -/
theorem currentOn_movingTask {count : ℕ} (hcount : count ≤ 3) {cpu : Int32} {pid : Pid}
    (hcurrent : currentOn (movingTask.take count) cpu = some pid) : cpu = 0 := by
  have hcpus : ∀ f ∈ movingTask.take 3, f.thisCpu ∈ ({0} : Finset Int32) := by decide
  have hpart : movingTask.take count <+: movingTask.take 3 := List.take_prefix_take_left hcount
  exact Finset.mem_singleton.mp
    (mem_cpus_of_currentOn (fun f hf => hcpus f (hpart.subset hf)) hcurrent)

theorem contextSwitches_movingTask : ContextSwitches movingTask := by
  have hnone : ContextSwitches [] := fun before f after heq => by simp at heq
  have hfirst : ContextSwitches (movingTask.take 1) :=
    hnone.concat fun prev next _ => ⟨nofun, nofun⟩
  have hsecond : ContextSwitches (movingTask.take 2) := by
    apply hfirst.concat
    intro prev next hhook
    cases hhook
    constructor
    · simp [currentOn, movingTask, Firing.switchedTo, Hook.firing]
    · intro other hother pid hpid
      exact absurd (currentOn_movingTask (by decide) hpid) hother
  have hthird : ContextSwitches (movingTask.take 3) := hsecond.concat nofun
  have hfourth : ContextSwitches (movingTask.take 4) := by
    apply hthird.concat
    intro prev next hhook
    cases hhook
    constructor
    · intro pid hpid
      exact absurd (currentOn_movingTask le_rfl hpid) (by decide)
    · intro other _ pid hpid hnumber
      -- The first CPU is idle again.
      obtain rfl := currentOn_movingTask (by decide) hpid
      cases hpid
      exact absurd rfl hnumber
  exact hfourth.concat nofun

theorem tracksRunning_movingTask :
    RunningField (.complete (kernelVersion 6 6 0)) movingTask :=
  tracksRunning _ (show ({0, 1} : Finset Int32).card ≤ 8192 from by decide) (by decide)
    contextSwitches_movingTask

end SchedAnalyzer
