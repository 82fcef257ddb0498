import SchedAnalyzer.Pipeline.CounterNames
import SchedAnalyzer.Session.Recorder

/-! # From the kernel to a table

A trace has some of the calls that were made while the tracing session ran, in their
order. It is read by `sa_track.init`, and the rows of one counter are taken by its
name. In every interleaving, these rows are values that the kernel had for the
counter, in their order, and without a gap if the trace has none.
-/

namespace SchedAnalyzer

open Foundation Foundation.CString Foundation.SqlLike

/-! ## Rows of a counter -/

/-- The rows that calls add to the counter tables of the trace. -/
def counterTable (process : List Char) (calls : List TraceCall) : List CounterRow :=
  (calls.flatMap TraceCall.run).filterMap (TrackEvent.row process)

/-- `df_sa_track[df_sa_track.counter_name == track]`. -/
def counterRows (track : List Char) (rows : List CounterRow) : List CounterRow :=
  rows.filter fun row => row.counterName = track

/-- The row of a sample. -/
def sampleRow (process track : List Char) (sample : UInt64 × Int) : CounterRow :=
  ⟨sample.1, sample.2, track, process⟩

theorem row_filter_eq (process track : List Char) (event : TrackEvent) :
    (event.row process).filter (fun row => row.counterName = track) =
      (event.sampleOn track).map (sampleRow process track) := by
  cases event with
  | counter category name ts value =>
      by_cases hname : name = track
      · simp [TrackEvent.row, TrackEvent.sampleOn, sampleRow, hname]
      · simp [TrackEvent.row, TrackEvent.sampleOn, hname]
  | sliceBegin => rfl
  | sliceEnd => rfl

/-- The rows of a counter are the samples on its track. -/
theorem counterRows_counterTable (process track : List Char) (calls : List TraceCall) :
    counterRows track (counterTable process calls) =
      (calls.flatMap (TraceCall.samplesOn track)).map (sampleRow process track) := by
  have hsamples : calls.flatMap (TraceCall.samplesOn track) =
      (calls.flatMap TraceCall.run).filterMap (TrackEvent.sampleOn track) := by
    rw [List.filterMap_flatMap]
    rfl
  rw [counterRows, counterTable, List.filter_filterMap, hsamples, List.map_filterMap]
  apply List.filterMap_congr
  intro event _
  exact row_filter_eq process track event

/-- The query keeps all rows of a counter whose name its pattern takes. -/
theorem counterRows_saTrackInit {collation : Collation} (process : AnalyzerProcess collation)
    {option : PpSignal} {track : List Char}
    (hlike : like collation ('%' :: ' ' :: option.pattern) track = true)
    {rows : List CounterRow} {calls : List TraceCall}
    (hrows : rows.Perm (counterTable process.name calls)) :
    (counterRows track (saTrackInit collation rows option.name)).Perm
      ((calls.flatMap (TraceCall.samplesOn track)).map (sampleRow process.name track)) := by
  rw [← counterRows_counterTable]
  have hquery : counterRows track (saTrackInit collation rows option.name) =
      (counterRows track rows).filter fun row =>
        like collation "%sched-analyzer".toList row.processName := by
    rw [option.saTrackInit_name, saTrackQuery, counterRows, counterRows, List.filter_filter,
      List.filter_filter]
    apply List.filter_congr
    intro row _
    by_cases hname : row.counterName = track
    · simp [hname, hlike]
    · simp [hname]
  rw [hquery]
  have hperm : (counterRows track rows).Perm
      (counterRows track (counterTable process.name calls)) := hrows.filter _
  -- All rows were written by the process.
  have hall : (counterRows track rows).filter (fun row =>
      like collation "%sched-analyzer".toList row.processName) = counterRows track rows := by
    apply List.filter_eq_self.mpr
    intro row hrow
    have hmem := hperm.subset hrow
    rw [counterRows_counterTable] at hmem
    obtain ⟨sample, -, rfl⟩ := List.mem_map.mp hmem
    exact process.accepted
  rw [hall]
  exact hperm

/-! ## Calls of a session -/

/-- The hooks whose records are about tasks. -/
theorem isTaskPelt_of_ring {hook : Hook} (hring : hook.program.ring = .taskPelt) :
    hook.IsTaskPelt := by
  cases hook
  case peltSe | utilEstSe | schedProcessFree => trivial
  all_goals cases hring

/-- The name and the pid in a call of a session are those of a task. -/
theorem ofTask_of_mem_step {k : KernelInfo} {user : UserState} {maps : BpfMaps} {f : Firing}
    {call : TraceCall} (hcall : call ∈ ((sessionTracer k user).step maps f).2) :
    call.OfTask := by
  cases call with
  | task signal ts name pid value =>
      cases hautoload : autoload user.opts f.hook.program with
      | false =>
          rw [step_sessionTracer_of_disabled hautoload] at hcall
          exact absurd hcall List.not_mem_nil
      | true =>
          rw [step_sessionTracer_of_enabled hautoload] at hcall
          obtain ⟨r, hr, hmem⟩ := List.mem_flatMap.mp hcall
          have hoption := option_mem_ring hmem
          rw [ring_of_mem_fire hr] at hoption
          have hring : f.hook.program.ring = signal.option.ring :=
            ring_eq_of_mem_options hoption (isOn_of_autoload hautoload).2.2
          have htask : f.hook.IsTaskPelt := by
            apply isTaskPelt_of_ring
            rw [hring]
            cases signal <;> rfl
          rw [step_taskPelt htask] at hcall
          obtain ⟨p, signal', value', heq, -, -⟩ := mem_hookCalls_task htask hcall
          obtain ⟨-, -, rfl, rfl, -⟩ := TraceCall.task.inj heq
          exact ⟨p.taskComm, p.pid, rfl, rfl⟩
  | _ => trivial

/-- What the calls of a session satisfy one by one, all calls that are made do, in every
interleaving. -/
theorem forall_mem_calls {k : KernelInfo} {user : UserState} {history : List RecorderEvent}
    {s : RecorderState} (hrun : recorderRun k user history = some s) {good : TraceCall → Prop}
    (hstep : ∀ maps f, ∀ call ∈ ((sessionTracer k user).step maps f).2, good call) :
    ∀ call ∈ s.calls, good call := by
  intro call hcall
  have hmem : call ∈ callsOf call.option s.calls :=
    List.mem_filter.mpr ⟨hcall, decide_eq_true rfl⟩
  have hsession := List.mem_append_left
    (callsOf call.option ((s.rings call.option.ring).flatMap (handleRecord user))) hmem
  rw [callsOf_recorderRun hrun] at hsession
  exact Transducer.forall_mem_outputs (sessionTracer k user)
    (fun maps f _ => hstep maps f) .empty call (List.mem_of_mem_filter hsession)

theorem subset_calls_of_kept {k : KernelInfo} {user : UserState} {history : List RecorderEvent}
    {s : RecorderState} (hrun : recorderRun k user history = some s) {trace : List TraceCall}
    (hkept : trace.Sublist s.inSession) : trace ⊆ s.calls :=
  List.Subset.trans hkept.subset (sessionSegment_run hrun).part.subset

/-- What is selected of the calls of an option is selected of its calls alone. -/
theorem filterMap_callsOf {option : SaOption} {Sample : Type}
    {select : TraceCall → Option Sample}
    (hselect : ∀ call, call.option ≠ option → select call = none) (calls : List TraceCall) :
    (callsOf option calls).filterMap select = calls.filterMap select := by
  rw [callsOf, List.filterMap_filter]
  apply List.filterMap_congr
  intro call _
  by_cases hoption : call.option = option
  · simp [hoption]
  · simp [hoption, hselect call hoption]

/-- What is selected of the calls of an option made while the session runs is a part
without a gap of what is selected of all that the hooks have for it. -/
theorem filterMap_inSession_part {k : KernelInfo} {user : UserState}
    {history : List RecorderEvent} {s : RecorderState}
    (hrun : recorderRun k user history = some s) {option : SaOption} {Sample : Type}
    {select : TraceCall → Option Sample}
    (hselect : ∀ call, call.option ≠ option → select call = none) :
    s.inSession.filterMap select <:+:
      ((sessionTracer k user).outputs .empty
        (history.filterMap RecorderEvent.firing?)).filterMap select := by
  have hpart := (callsOf_inSession_part hrun option).filterMap select
  rwa [filterMap_callsOf hselect, filterMap_callsOf hselect] at hpart

/-- Of the values that the kernel had, a trace has some in their order, and a part without
a gap if it has that of the calls made while the session runs. -/
structure KeepsValues (s : RecorderState) (trace : List TraceCall)
    (known values : List (UInt64 × Int)) : Prop where
  inOrder : values.Sublist known
  withoutGap : trace <:+: s.inSession → values <:+: known

theorem keepsValues_of_kept {k : KernelInfo} {user : UserState} {history : List RecorderEvent}
    {s : RecorderState} (hrun : recorderRun k user history = some s) {trace : List TraceCall}
    (hkept : trace.Sublist s.inSession) {option : SaOption}
    {select : TraceCall → Option (UInt64 × Int)}
    (hselect : ∀ call, call.option ≠ option → select call = none) :
    KeepsValues s trace (((sessionTracer k user).outputs .empty
      (history.filterMap RecorderEvent.firing?)).filterMap select) (trace.filterMap select) where
  inOrder := (hkept.filterMap select).trans (filterMap_inSession_part hrun hselect).sublist
  withoutGap hpart := (hpart.filterMap select).trans (filterMap_inSession_part hrun hselect)

/-! ## CPU-level counters -/

/-- No other counter of the same name is on. -/
def CpuSignal.NameAlone (opts : SaOpts) (signal : CpuSignal) : Prop :=
  ∀ other : CpuSignal, other.format = signal.format → opts.isOn other.option = true →
    other = signal

/-- The rows of a CPU-level counter are values that the kernel had for it on the CPU, in
every interleaving. What Perfetto keeps of the calls is arbitrary. -/
theorem cpuCounter_rows {k : KernelInfo} {user : UserState} {history : List RecorderEvent}
    {s : RecorderState} (hrun : recorderRun k user history = some s) {collation : Collation}
    (process : AnalyzerProcess collation) {trace : List TraceCall}
    (hkept : trace.Sublist s.inSession) {rows : List CounterRow}
    (hrows : rows.Perm (counterTable process.name trace)) {option : PpSignal}
    {signal : CpuSignal} (hoption : option.selects signal = true)
    (halone : signal.NameAlone user.opts)
    (hsmall : ∀ f ∈ history.filterMap RecorderEvent.firing?, f.hook.SmallReadings k)
    (hload : signal = .loadAvg → user.opts.loadAvgThermal = false)
    (hthermal : signal = .loadAvgThermal → user.opts.utilEstCpu = false) {cpu : Int32}
    (hcpu : 0 ≤ cpu) :
    ∃ values, KeepsValues s trace ((history.filterMap RecorderEvent.firing?).filterMap
          (Firing.cpuValue? k user.opts signal cpu)) values ∧
      (counterRows (cpuTrackName signal.format cpu)
          (saTrackInit collation rows option.name)).Perm
        (values.map (sampleRow process.name (cpuTrackName signal.format cpu))) := by
  refine ⟨trace.filterMap (TraceCall.cpuValue? signal cpu), ?_, ?_⟩
  · rw [← cpuValues_session hsmall hload hthermal cpu .empty]
    apply keepsValues_of_kept hrun hkept
    intro call hother
    exact TraceCall.cpuValue?_of_option_ne hother cpu
  · have hlike : like collation ('%' :: ' ' :: option.pattern)
        (cpuTrackName signal.format cpu) = true := by
      rw [option.like_pattern, hoption]
    have hsamples : trace.flatMap (TraceCall.samplesOn (cpuTrackName signal.format cpu)) =
        trace.filterMap (TraceCall.cpuValue? signal cpu) := by
      rw [List.filterMap_eq_flatMap_toList]
      apply List.flatMap_congr
      intro call hcall
      have hmade := subset_calls_of_kept hrun hkept hcall
      have htask := forall_mem_calls hrun (fun _ _ _ => ofTask_of_mem_step) call hmade
      have hon := forall_mem_calls hrun (fun _ _ _ => isOn_of_mem_step) call hmade
      rw [samplesOn_cpuTrackName htask signal hcpu]
      congr 1
      cases call with
      | cpu signal' ts cpu' value =>
          have hsame : signal'.format = signal.format ↔ signal' = signal :=
            ⟨fun heq => halone signal' heq hon, congrArg CpuSignal.format⟩
          simp only [TraceCall.named?, TraceCall.cpuValue?, hsame]
      | _ => rfl
    rw [← hsamples]
    exact counterRows_saTrackInit process hlike hrows

/-! ## Task-level counters -/

/-- The rows of a task's counter whose name was not cut are values that the kernel had for
the task under this comm and pid, in every interleaving. -/
theorem taskCounter_rows {k : KernelInfo} {user : UserState} {history : List RecorderEvent}
    {s : RecorderState} (hrun : recorderRun k user history = some s) {collation : Collation}
    (process : AnalyzerProcess collation) {trace : List TraceCall}
    (hkept : trace.Sublist s.inSession) {rows : List CounterRow}
    (hrows : rows.Perm (counterTable process.name trace)) {option : PpSignal}
    {signal : TaskSignal} (hoption : option ∈ signal.ppSignal)
    (hsmall : ∀ f ∈ history.filterMap RecorderEvent.firing?, f.hook.SmallTaskReadings k)
    {comm : TaskComm} (hcomm : comm.text ≠ "CPU".toList) {pid : Pid}
    (hfits : comm.text.length + (formatNat pid.number).length + 2 +
      signal.format.toList.length ≤ 31) :
    ∃ values, KeepsValues s trace ((history.filterMap RecorderEvent.firing?).filterMap
          (Firing.taskValue? k user.opts signal comm pid)) values ∧
      (counterRows (signal.track comm pid) (saTrackInit collation rows option.name)).Perm
        (values.map (sampleRow process.name (signal.track comm pid))) := by
  refine ⟨trace.filterMap (TraceCall.taskValue? signal comm pid), ?_, ?_⟩
  · rw [← taskValues_session hsmall signal comm pid .empty]
    apply keepsValues_of_kept hrun hkept
    intro call hother
    exact TraceCall.taskValue?_of_option_ne hother comm pid
  · have hlike : like collation ('%' :: ' ' :: option.pattern) (signal.track comm pid) = true :=
      TaskSignal.like_track collation hoption hfits
    have hsamples : trace.flatMap (TraceCall.samplesOn (signal.track comm pid)) =
        trace.filterMap (TraceCall.taskValue? signal comm pid) := by
      rw [List.filterMap_eq_flatMap_toList]
      apply List.flatMap_congr
      intro call hcall
      have htask := forall_mem_calls hrun (fun _ _ _ => ofTask_of_mem_step) call
        (subset_calls_of_kept hrun hkept hcall)
      exact samplesOn_track htask hcomm hfits
    rw [← hsamples]
    exact counterRows_saTrackInit process hlike hrows

end SchedAnalyzer
