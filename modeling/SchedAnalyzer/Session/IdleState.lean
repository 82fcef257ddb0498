import SchedAnalyzer.Session.TaskReset
import SchedAnalyzer.Trace.Names

/-! # The idle state of a CPU

A `cpu_idle` tracepoint and a miss report go through the same record, and the
handler emits the `idle_state` counter for both. A miss names the state that the
CPU has left.
-/

namespace SchedAnalyzer

open Foundation Foundation.CString Foundation.Lists

/-! ## Runs and states -/

/-- The state a `cpu_idle` puts a CPU in. -/
def Hook.idled? (cpu : UInt32) : Hook → Option UInt32
  | .cpuIdle state onCpu => if onCpu = cpu then some state else none
  | _ => none

/-- The state a miss reports for a CPU. -/
def Hook.missed? (cpu : UInt32) : Hook → Option UInt32
  | .cpuIdleMiss onCpu state _ => if onCpu = cpu then some state else none
  | _ => none

def Hook.IsIdle : Hook → Prop
  | .cpuIdle _ _ => True
  | .cpuIdleMiss _ _ _ => True
  | _ => False

/-- Such hooks only, and no record dropped. -/
def IdleRun (run : List Firing) : Prop :=
  ∀ f ∈ run, f.hook.IsIdle ∧ f.reserved = true

/-- The states a CPU was put in, in order. -/
def idleStates (cpu : UInt32) (run : List Firing) : List UInt32 :=
  run.filterMap fun f => f.hook.idled? cpu

/-- The track of a CPU's idle state. -/
def idleTrack (cpu : UInt32) : List Char :=
  cpuTrackName "idle_state" cpu.toInt32

/-- In every state reached, the track of a CPU shows the state that its last
`cpu_idle` put it in. -/
def ShowsIdleState (k : KernelInfo) (state : UserState) (maps : BpfMaps) (run : List Firing) :
    Prop :=
  ∀ before after, run = before ++ after →
    ∀ cpu current, (idleStates cpu before).getLast? = some current →
      (trackValues (idleTrack cpu) ((tracer k state).outputs maps before)).getLast? =
        some current.toInt32.toInt

/-- A miss reports the state that the last `cpu_idle` of its CPU put it in. -/
def MissesAreCurrent (run : List Firing) : Prop :=
  ∀ before f after, run = before ++ f :: after →
    ∀ cpu, ∀ reported ∈ f.hook.missed? cpu,
      ∀ current ∈ (idleStates cpu before).getLast?, reported = current

/-! ## One hook -/

theorem toInt32_injective : Function.Injective UInt32.toInt32 := by
  intro a b heq
  have hback := congrArg Int32.toUInt32 heq
  rwa [UInt32.toUInt32_toInt32, UInt32.toUInt32_toInt32] at hback

/-- The track name is not cut, and tells the CPU. -/
theorem idleTrack_injective : Function.Injective idleTrack := by
  intro cpu cpu' heq
  obtain ⟨kept, -, hname⟩ := cpuTrackName_eq "idle_state" cpu.toInt32
  obtain ⟨kept', -, hname'⟩ := cpuTrackName_eq "idle_state" cpu'.toInt32
  have hblank : ∀ count, ' ' ∉ "idle_state".toList.take count :=
    fun count hmem => absurd (List.mem_of_mem_take hmem) (by decide)
  rw [idleTrack, idleTrack, hname, hname'] at heq
  obtain ⟨hhead, -⟩ := append_cons_inj_of_notMem_tail (hblank kept) (hblank kept') heq
  have hnumber := formatInt_injective (List.append_cancel_left hhead)
  exact toInt32_injective (Int32.toInt_inj.mp hnumber)

/-- The counter of a record is on the track of its CPU. -/
theorem trackValues_cpuIdle (ts : UInt64) (onCpu cpu reported : UInt32) {calls : List TraceCall}
    (hcalls : trackValues (idleTrack cpu) calls = []) :
    trackValues (idleTrack cpu) (.cpuIdle ts onCpu.toInt32 reported.toInt32 :: calls) =
      ((if onCpu = cpu then some reported else none).map fun s => s.toInt32.toInt).toList := by
  have hevent : trackValues (idleTrack cpu) (.cpuIdle ts onCpu.toInt32 reported.toInt32 :: calls) =
      (TrackEvent.valueOn (idleTrack cpu)
        (.counter "cpu-idle" (idleTrack onCpu) ts reported.toInt32.toInt)).toList ++
          trackValues (idleTrack cpu) calls := by
    rw [trackValues, List.flatMap_cons, List.filterMap_append, trackValues]
    congr 1
  rw [hevent, hcalls, List.append_nil, TrackEvent.valueOn]
  by_cases hcpu : onCpu = cpu
  · rw [if_pos hcpu, if_pos (congrArg idleTrack hcpu)]
    rfl
  · rw [if_neg hcpu, if_neg (fun htrack => hcpu (idleTrack_injective htrack))]
    rfl

/-- What a hook puts on the track of a CPU: the state it reports for it. -/
theorem trackValues_idle {state : UserState} (hopts : state.opts.cpuIdle = true)
    (k : KernelInfo) (maps : BpfMaps) {f : Firing} (hhook : f.hook.IsIdle)
    (hreserved : f.reserved = true) (cpu : UInt32) :
    trackValues (idleTrack cpu) ((tracer k state).step maps f).2 =
      (((f.hook.idled? cpu).or (f.hook.missed? cpu)).map fun s => s.toInt32.toInt).toList := by
  obtain ⟨hook, now, nowNext, thisCpu, reserved, reservedNext, slots⟩ := f
  dsimp only at hreserved
  subst hreserved
  cases hook
  case cpuIdle reported onCpu =>
    simp only [tracer, fire, handleCpuIdle, submitFreqIdle, reserve_true, Option.map_some,
      Option.toList_some, List.flatMap_cons, List.flatMap_nil, List.append_nil, handleRecord,
      handleFreqIdleEvent, hopts, callsIf_true, Hook.missed?, Option.or_none]
    exact trackValues_cpuIdle now onCpu cpu reported rfl
  case cpuIdleMiss onCpu reported below =>
    simp only [tracer, fire, handleCpuIdleMiss, submitFreqIdle, reserve_true, Option.map_some,
      Option.toList_some, List.flatMap_cons, List.flatMap_nil, List.append_nil, handleRecord,
      handleFreqIdleEvent, hopts, callsIf_true, Hook.idled?, Option.none_or]
    refine trackValues_cpuIdle now onCpu cpu reported ?_
    -- The miss itself is a slice.
    cases below <;> rfl
  all_goals exact hhook.elim

/-! ## Runs -/

/-- One more hook adds to a track what it puts there. -/
theorem trackValues_outputs_append (k : KernelInfo) (state : UserState) (maps : BpfMaps)
    (track : List Char) (before : List Firing) (f : Firing) :
    trackValues track ((tracer k state).outputs maps (before ++ [f])) =
      trackValues track ((tracer k state).outputs maps before) ++
        trackValues track ((tracer k state).step ((tracer k state).final maps before) f).2 := by
  rw [Transducer.outputs_append, Transducer.outputs_cons, Transducer.outputs_nil, List.append_nil]
  simp only [trackValues, List.flatMap_append, List.filterMap_append]

theorem idleStates_append (cpu : UInt32) (before : List Firing) (f : Firing) :
    idleStates cpu (before ++ [f]) = idleStates cpu before ++ (f.hook.idled? cpu).toList := by
  rw [idleStates, List.filterMap_append, List.filterMap_cons, List.filterMap_nil]
  cases f.hook.idled? cpu <;> rfl

theorem idled?_of_missed? {cpu reported : UInt32} {hook : Hook}
    (hmissed : hook.missed? cpu = some reported) : hook.idled? cpu = none := by
  cases hook <;> first | rfl | cases hmissed

/-- While misses are current, what is shown after a hook is what is current after it. -/
theorem showsIdleState_of_missesAreCurrent {k : KernelInfo} {state : UserState}
    {run : List Firing} (hopts : state.opts.cpuIdle = true) (hrun : IdleRun run)
    (hmisses : MissesAreCurrent run) (maps : BpfMaps) : ShowsIdleState k state maps run := by
  intro before
  induction before using List.reverseRecOn with
  | nil => exact fun _ _ cpu current hcurrent => absurd hcurrent nofun
  | append_singleton before f ih =>
      rintro after rfl cpu current hcurrent
      obtain ⟨hhook, hreserved⟩ := hrun f (by simp)
      rw [trackValues_outputs_append, trackValues_idle hopts k _ hhook hreserved]
      rw [idleStates_append] at hcurrent
      cases hidled : f.hook.idled? cpu with
      | some idled =>
          rw [hidled, Option.toList_some, List.getLast?_concat, Option.some.injEq] at hcurrent
          rw [Option.some_or, Option.map_some, Option.toList_some, List.getLast?_concat, hcurrent]
      | none =>
          rw [hidled, Option.toList_none, List.append_nil] at hcurrent
          rw [Option.none_or]
          cases hmissed : f.hook.missed? cpu with
          | some reported =>
              have hsame := hmisses before f after (by simp) cpu reported hmissed current hcurrent
              rw [Option.map_some, Option.toList_some, List.getLast?_concat, hsame]
          | none =>
              rw [Option.map_none, Option.toList_none, List.append_nil]
              exact ih (f :: after) (by simp) cpu current hcurrent

/-- With the option on, the track of every CPU shows the state of its last
`cpu_idle` throughout a run, if and only if every miss reports that state. -/
theorem showsIdleState_iff {k : KernelInfo} {state : UserState} {run : List Firing}
    (hopts : state.opts.cpuIdle = true) (hrun : IdleRun run) (maps : BpfMaps) :
    ShowsIdleState k state maps run ↔ MissesAreCurrent run := by
  refine ⟨?_, fun hmisses => showsIdleState_of_missesAreCurrent hopts hrun hmisses maps⟩
  rintro hshows before f after rfl cpu reported hmissed current hcurrent
  obtain ⟨hhook, hreserved⟩ := hrun f (by simp)
  have hidled := idled?_of_missed? hmissed
  have hcurrent' : (idleStates cpu (before ++ [f])).getLast? = some current := by
    rw [idleStates_append, hidled, Option.toList_none, List.append_nil]
    exact hcurrent
  have hshown := hshows (before ++ [f]) after (by simp) cpu current hcurrent'
  rw [trackValues_outputs_append, trackValues_idle hopts k _ hhook hreserved, hidled,
    Option.none_or, hmissed, Option.map_some, Option.toList_some, List.getLast?_concat,
    Option.some.injEq] at hshown
  exact toInt32_injective (Int32.toInt_inj.mp hshown)

/-- The state of a `cpu_idle` that takes a CPU out of idle. -/
def idleExit : UInt32 := 0xffffffff

/-- The kernel's order: a miss comes after the CPU has left idle and names the
state it was in. -/
def MissAfterExit (run : List Firing) : Prop :=
  ∀ before f after, run = before ++ f :: after →
    ∀ cpu, ∀ reported ∈ f.hook.missed? cpu,
      reported ≠ idleExit ∧
        ∃ states, idleStates cpu before = states ++ [reported, idleExit]

/-- In the kernel's order no miss is current. -/
theorem missesAreCurrent_iff_of_missAfterExit {run : List Firing} (horder : MissAfterExit run) :
    MissesAreCurrent run ↔ ∀ f ∈ run, ∀ cpu, f.hook.missed? cpu = none := by
  constructor
  · intro hmisses f hf cpu
    obtain ⟨before, after, hsplit⟩ := List.append_of_mem hf
    rw [Option.eq_none_iff_forall_ne_some]
    intro reported hmissed
    obtain ⟨hne, states, hstates⟩ := horder before f after hsplit cpu reported hmissed
    refine hne (hmisses before f after hsplit cpu reported hmissed idleExit ?_)
    rw [hstates, List.getLast?_append]
    rfl
  · rintro hnone before f after rfl cpu reported hmissed
    exact absurd ((hnone f (by simp) cpu).symm.trans hmissed) nofun

theorem MissesAreCurrent.concat {run : List Firing} (hmisses : MissesAreCurrent run) {f : Firing}
    (hlast : ∀ cpu, ∀ reported ∈ f.hook.missed? cpu,
      ∀ current ∈ (idleStates cpu run).getLast?, reported = current) :
    MissesAreCurrent (run ++ [f]) :=
  forall_splits_concat hmisses hlast

/-- A CPU goes to idle and leaves it, on a machine where no miss is found. -/
def enterAndLeave : List Firing :=
  [(Hook.cpuIdle 1 0).firing 1000 0, (Hook.cpuIdle idleExit 0).firing 2000 0]

/-- The options with the idle states of CPUs on. -/
def cpuIdleOpts : SaOpts :=
  { SaOpts.initial with cpuIdle := true }

/-- A miss that names the state the CPU is in, and one on a CPU that was in none. -/
def currentMisses : List Firing :=
  [(Hook.cpuIdle 1 0).firing 1000 0, (Hook.cpuIdleMiss 0 1 false).firing 1500 0,
    (Hook.cpuIdleMiss 1 2 true).firing 1600 1, (Hook.cpuIdle idleExit 0).firing 2000 0]

theorem missesAreCurrent_currentMisses : MissesAreCurrent currentMisses := by
  have hnone : MissesAreCurrent [] := fun before f after hsplit => by simp at hsplit
  have hentered : MissesAreCurrent (currentMisses.take 1) := by
    apply hnone.concat
    intro cpu reported hmissed
    cases hmissed
  have hcurrent : MissesAreCurrent (currentMisses.take 2) := by
    apply hentered.concat
    intro cpu reported hmissed current hlast
    obtain ⟨rfl, hreported⟩ := Option.ite_none_right_eq_some.mp hmissed
    cases hreported
    exact Option.some.inj hlast
  have hother : MissesAreCurrent (currentMisses.take 3) := by
    apply hcurrent.concat
    intro cpu reported hmissed current hlast
    obtain ⟨rfl, -⟩ := Option.ite_none_right_eq_some.mp hmissed
    cases hlast
  apply hother.concat
  intro cpu reported hmissed
  cases hmissed

theorem showsIdleState_currentMisses :
    ShowsIdleState (.complete (kernelVersion 6 6 0)) (.initial cpuIdleOpts) .empty
      currentMisses := by
  refine (showsIdleState_iff rfl ?_ .empty).mpr missesAreCurrent_currentMisses
  intro f hf
  simp only [currentMisses, List.mem_cons, List.not_mem_nil, or_false] at hf
  rcases hf with rfl | rfl | rfl | rfl <;> exact ⟨trivial, rfl⟩

/-- The same with a report that the state was too shallow. -/
def enterLeaveAndMiss : List Firing :=
  enterAndLeave ++ [(Hook.cpuIdleMiss 0 1 false).firing 3000 0]

/-- The CPU that has left idle looks idle again. -/
theorem showsIdleState_fails_after_miss :
    IdleRun enterLeaveAndMiss ∧ MissAfterExit enterLeaveAndMiss ∧
      ¬ ShowsIdleState (.complete (kernelVersion 6 6 0)) (.initial cpuIdleOpts) .empty
        enterLeaveAndMiss := by
  refine ⟨?_, ?_, ?_⟩
  · intro f hf
    simp only [enterLeaveAndMiss, enterAndLeave, List.cons_append, List.nil_append,
      List.mem_cons, List.not_mem_nil, or_false] at hf
    rcases hf with rfl | rfl | rfl <;> exact ⟨trivial, rfl⟩
  · intro before f after hsplit cpu reported hmissed
    simp only [enterLeaveAndMiss, enterAndLeave, List.cons_append, List.nil_append] at hsplit
    -- The miss is the third hook.
    rcases before with _ | ⟨first, _ | ⟨second, _ | ⟨third, rest⟩⟩⟩ <;>
      simp only [List.nil_append, List.cons_append, List.cons.injEq] at hsplit
    · obtain ⟨rfl, -⟩ := hsplit
      cases hmissed
    · obtain ⟨-, rfl, -⟩ := hsplit
      cases hmissed
    · obtain ⟨rfl, rfl, rfl, -⟩ := hsplit
      rw [Option.mem_def, Hook.firing, Hook.missed?, Option.ite_none_right_eq_some] at hmissed
      obtain ⟨rfl, hreported⟩ := hmissed
      cases hreported
      exact ⟨by decide, [], rfl⟩
    · exact absurd hsplit.2.2.2 (by simp)
  · intro hshows
    have hshown := hshows enterLeaveAndMiss [] (by simp) 0 idleExit rfl
    exact absurd hshown (by decide)

end SchedAnalyzer
