import SchedAnalyzer.Pipeline.CounterTables
import SchedAnalyzer.Post.Resample

/-! # From the kernel to a plot

`plot_sa_track_*` resamples the rows of a counter on the grid of the trace. What is
drawn at an instant is the value of the latest update up to it that the trace has.
-/

namespace SchedAnalyzer

open Foundation Foundation.CString Foundation.DataFrame Foundation.SqlLike

/-- A row of the counter's table. -/
def CounterRow.series (row : CounterRow) : Row ℤ (SeriesCell (List Char)) where
  ts := row.ts.toNat
  cell
    | .track => some row.counterName
    | .value => some row.value

theorem CounterRow.isComplete_series (row : CounterRow) : row.series.IsComplete := by
  intro column
  cases column <;> rfl

/-- What `plot_sa_track_*` draws for a counter. -/
def plottedTrack (bounds : Bounds) (track : List Char) (rows : List CounterRow) :
    Frame ℚ (SeriesCell (List Char)) :=
  convertTs bounds ((counterRows track rows).map CounterRow.series) true

/-- Of values with their times, the latest one up to an instant. -/
structure IsLatest (values : List (UInt64 × Int)) (ts : ℤ) (sample : UInt64 × Int) : Prop where
  mem : sample ∈ values
  reached : (sample.1.toNat : ℤ) ≤ ts
  latest : ∀ other ∈ values, (other.1.toNat : ℤ) ≤ ts → other.1.toNat ≤ sample.1.toNat

/-- The curve of a counter shows values as steps: at every instant of the grid that is
drawn, the latest value up to it, and nothing before the first one. -/
structure DrawsSteps (bounds : Bounds) (curve : Frame ℚ (SeriesCell (List Char)))
    (values : List (UInt64 × Int)) : Prop where
  latest : ∀ ts ∈ gridWindow bounds, ∀ row ∈ curve, row.ts = bounds.seconds ts →
    ∀ sample, IsLatest values ts sample → row.cell .value = some (sample.2 : ℚ)
  before : ∀ ts ∈ gridWindow bounds, ∀ row ∈ curve, row.ts = bounds.seconds ts →
    (∀ sample ∈ values, ts < (sample.1.toNat : ℤ)) → row.cell .value = none
  drawn : (∃ ts ∈ gridWindow bounds, ∃ sample, IsLatest values ts sample) →
    curve.map Row.ts = (gridWindow bounds).map bounds.seconds

section Samples

variable {process track : List Char} {rows : List CounterRow} {values : List (UInt64 × Int)}

theorem sorted_series
    (hsorted : (counterRows track rows).Pairwise fun row other => row.ts ≤ other.ts) :
    Sorted ((counterRows track rows).map CounterRow.series) := by
  apply List.pairwise_map.mpr
  apply hsorted.imp
  intro row other hle
  exact Int.ofNat_le.mpr (UInt64.le_iff_toNat_le.mp hle)

theorem mem_series_iff
    (htable : (counterRows track rows).Perm (values.map (sampleRow process track)))
    {sample : Row ℤ (SeriesCell (List Char))} :
    sample ∈ (counterRows track rows).map CounterRow.series ↔
      ∃ value ∈ values, sample = (sampleRow process track value).series := by
  constructor
  · intro hsample
    obtain ⟨row, hrow, rfl⟩ := List.mem_map.mp hsample
    obtain ⟨value, hvalue, rfl⟩ := List.mem_map.mp (htable.subset hrow)
    exact ⟨value, hvalue, rfl⟩
  · rintro ⟨value, hvalue, rfl⟩
    exact List.mem_map_of_mem (htable.symm.subset (List.mem_map_of_mem hvalue))

/-- The row of the latest value is the one that an instant is filled from. -/
theorem firstOfLatest_series
    (htable : (counterRows track rows).Perm (values.map (sampleRow process track)))
    (hframe : Sorted ((counterRows track rows).map CounterRow.series))
    (hdistinct : (values.map Prod.fst).Nodup) {ts : ℤ} {sample : UInt64 × Int}
    (hsample : IsLatest values ts sample) :
    firstOfLatest ((counterRows track rows).map CounterRow.series) ts =
      some (sampleRow process track sample).series := by
  have hrow := (mem_series_iff htable).mpr ⟨sample, hsample.mem, rfl⟩
  cases hlast : lastUpTo ((counterRows track rows).map CounterRow.series) ts with
  | none => exact absurd hsample.reached (not_le.mpr (lastUpTo_eq_none_iff.mp hlast _ hrow))
  | some last =>
      obtain ⟨hlastMem, hlastLe⟩ := mem_of_lastUpTo hlast
      obtain ⟨value, hvalue, rfl⟩ := (mem_series_iff htable).mp hlastMem
      -- The times are distinct, so the last row is that of the latest value.
      obtain rfl : value = sample := by
        have hup : value.1.toNat ≤ sample.1.toNat := hsample.latest value hvalue hlastLe
        have hdown : (sample.1.toNat : ℤ) ≤ value.1.toNat :=
          le_of_lastUpTo hframe hlast hrow hsample.reached
        have htime : value.1 = sample.1 := UInt64.toNat_inj.mp (by omega)
        exact List.inj_on_of_nodup_map hdistinct hvalue hsample.mem htime
      apply firstOfLatest_eq_of_unique hlast
      intro other hother htime
      obtain ⟨value', hvalue', rfl⟩ := (mem_series_iff htable).mp hother
      have htime : value'.1 = value.1 := UInt64.toNat_inj.mp (Int.ofNat.inj htime)
      rw [List.inj_on_of_nodup_map hdistinct hvalue' hvalue htime]

/-- Rows that are the samples of a list, in the order of their times and at different
times, are drawn as its steps. -/
theorem drawsSteps_of_perm (bounds : Bounds)
    (htable : (counterRows track rows).Perm (values.map (sampleRow process track)))
    (hsorted : (counterRows track rows).Pairwise fun row other => row.ts ≤ other.ts)
    (hdistinct : ((counterRows track rows).map CounterRow.ts).Nodup) :
    DrawsSteps bounds (plottedTrack bounds track rows) values := by
  have hframe := sorted_series hsorted
  have hcomplete : ∀ sample ∈ (counterRows track rows).map CounterRow.series,
      sample.IsComplete := by
    intro sample hsample
    obtain ⟨row, -, rfl⟩ := List.mem_map.mp hsample
    exact row.isComplete_series
  have hdistinct : (values.map Prod.fst).Nodup := by
    have htimes := (htable.map CounterRow.ts).nodup_iff.mp hdistinct
    rwa [List.map_map] at htimes
  refine ⟨?_, ?_, ?_⟩
  · intro ts hts row hrow hlabel sample hsample
    rw [eq_sampleAt_of_mem_convertTs hframe hrow hlabel, sampleAt,
      firstOfLatest_series htable hframe hdistinct hsample]
    rfl
  · intro ts hts row hrow hlabel hnone
    have hlast : lastUpTo ((counterRows track rows).map CounterRow.series) ts = none := by
      apply lastUpTo_eq_none_iff.mpr
      intro other hother
      obtain ⟨value, hvalue, rfl⟩ := (mem_series_iff htable).mp hother
      exact hnone value hvalue
    rw [eq_sampleAt_of_mem_convertTs hframe hrow hlabel, sampleAt, firstOfLatest, hlast]
    rfl
  · rintro ⟨ts, hts, sample, hsample⟩
    apply map_ts_convertTs_of_reached hframe hcomplete
    exact ⟨ts, hts, _, (mem_series_iff htable).mpr ⟨sample, hsample.mem, rfl⟩, hsample.reached⟩

end Samples

/-- The rows of a track in the order of their times, and no two at one time. -/
structure OrderedRows (track : List Char) (rows : List CounterRow) : Prop where
  sorted : (counterRows track rows).Pairwise fun row other => row.ts ≤ other.ts
  distinct : ((counterRows track rows).map CounterRow.ts).Nodup

/-- From the kernel to the plot of a CPU-level counter, in every interleaving: the table has
those of the values that the kernel had for it on the CPU that the trace kept, and the
curve shows the latest of them at every instant. -/
theorem cpuCounter_plot {k : KernelInfo} {user : UserState} {history : List RecorderEvent}
    {s : RecorderState} (hrun : recorderRun k user history = some s) {collation : Collation}
    (process : AnalyzerProcess collation) {trace : List TraceCall}
    (hkept : trace.Sublist s.inSession) {rows : List CounterRow}
    (hrows : rows.Perm (counterTable process.name trace)) {option : PpSignal}
    {signal : CpuSignal} (hoption : option.selects signal = true)
    (halone : signal.NameAlone user.opts)
    (hsmall : ∀ f ∈ history.filterMap RecorderEvent.firing?, f.hook.SmallReadings k)
    (hload : signal = .loadAvg → user.opts.loadAvgThermal = false)
    (hthermal : signal = .loadAvgThermal → user.opts.utilEstCpu = false) {cpu : Int32}
    (hcpu : 0 ≤ cpu) (bounds : Bounds)
    (hordered : OrderedRows (cpuTrackName signal.format cpu)
      (saTrackInit collation rows option.name)) :
    ∃ values, KeepsValues s trace ((history.filterMap RecorderEvent.firing?).filterMap
          (Firing.cpuValue? k user.opts signal cpu)) values ∧
      (counterRows (cpuTrackName signal.format cpu)
          (saTrackInit collation rows option.name)).Perm
        (values.map (sampleRow process.name (cpuTrackName signal.format cpu))) ∧
      DrawsSteps bounds (plottedTrack bounds (cpuTrackName signal.format cpu)
        (saTrackInit collation rows option.name)) values := by
  obtain ⟨values, hpart, htable⟩ :=
    cpuCounter_rows hrun process hkept hrows hoption halone hsmall hload hthermal hcpu
  exact ⟨values, hpart, htable,
    drawsSteps_of_perm bounds htable hordered.sorted hordered.distinct⟩

/-- A recording in which the records of one ring buffer are handled while it runs. -/
def shortRecording (thread : EventThread) (firings : List Firing) : List RecorderEvent :=
  [.main (.loaded 0), .main (.attached 0)] ++ List.replicate 8 (.main (.created 0)) ++
    [.main (.ringBuffer thread true), .startsTrace 3] ++ firings.map .fires ++
      List.replicate firings.length (.handles thread)

/-- The utilisation of the RT class is reported. -/
def rtUser : UserState :=
  .initial { SaOpts.initial with utilAvgRt := true }

/-- The utilisation of the class grows on CPU 0. -/
def rtUpdates : List Firing :=
  [rtUpdate, (Hook.peltRt { Rq.unused 0 with
    avgRt := { SchedAvg.zero with utilAvg := 9 } }).firing 3000 0]

theorem smallReadings_rtUpdates (k : KernelInfo) : ∀ f ∈ rtUpdates, f.hook.SmallReadings k := by
  intro f hf signal reading hreading
  simp only [rtUpdates, List.mem_cons, List.not_mem_nil, or_false] at hf
  rcases hf with rfl | rfl
  all_goals
    simp only [rtUpdate, Hook.firing, Hook.cpuReading?, Option.mem_def] at hreading
    split at hreading
    next =>
      obtain rfl := Option.some.inj hreading
      decide
    next => cases hreading

/-- Both updates are handled while the session runs, and the trace has the later one. -/
theorem cpuCounter_plot_rt :
    ∃ s, recorderRun (.complete 0) rtUser (shortRecording .rqPelt rtUpdates) = some s ∧
      ∃ values, KeepsValues s s.inSession.tail (rtUpdates.filterMap
            (Firing.cpuValue? (.complete 0) rtUser.opts .utilAvgRt 0)) values ∧
        (counterRows (cpuTrackName "util_avg_rt" 0) (saTrackInit .asciiNoCase
            (counterTable (recorder .asciiNoCase).name s.inSession.tail) "util_avg_rt")).Perm
          (values.map (sampleRow (recorder .asciiNoCase).name (cpuTrackName "util_avg_rt" 0))) ∧
        DrawsSteps (Bounds.ofTrace 0 300000) (plottedTrack (Bounds.ofTrace 0 300000)
          (cpuTrackName "util_avg_rt" 0) (saTrackInit .asciiNoCase
            (counterTable (recorder .asciiNoCase).name s.inSession.tail) "util_avg_rt")) values := by
  obtain ⟨s, hrun, hinSession⟩ : ∃ s, recorderRun (.complete 0) rtUser
      (shortRecording .rqPelt rtUpdates) = some s ∧
        s.inSession = [.cpu .utilAvgRt 2000 0 7, .cpu .utilAvgRt 3000 0 9] :=
    Option.map_eq_some_iff.mp (by decide)
  have halone : CpuSignal.utilAvgRt.NameAlone rtUser.opts := by
    intro other
    cases other <;> decide
  have hsmall : ∀ f ∈ (shortRecording .rqPelt rtUpdates).filterMap RecorderEvent.firing?,
      f.hook.SmallReadings (.complete 0) := by
    intro f hf
    have hf : f ∈ rtUpdates := hf
    exact smallReadings_rtUpdates _ f hf
  have hoption : PpSignal.utilAvgRt.selects .utilAvgRt = true := rfl
  have hordered : OrderedRows (cpuTrackName CpuSignal.utilAvgRt.format 0) (saTrackInit .asciiNoCase
      (counterTable (recorder .asciiNoCase).name s.inSession.tail) PpSignal.utilAvgRt.name) := by
    rw [hinSession]
    constructor <;> decide
  exact ⟨s, hrun, cpuCounter_plot hrun (recorder .asciiNoCase) (List.tail_sublist _)
    (List.Perm.refl _) hoption halone hsmall (fun h => by cases h) (fun h => by cases h)
    (by decide) _ hordered⟩

/-- From the kernel to the plot of a task's counter, in every interleaving: for a task
whose counter's name is not cut, the table has those of the values that the kernel had
for it under this comm and pid that the trace kept, and the curve shows the latest of
them at every instant. -/
theorem taskCounter_plot {k : KernelInfo} {user : UserState} {history : List RecorderEvent}
    {s : RecorderState} (hrun : recorderRun k user history = some s) {collation : Collation}
    (process : AnalyzerProcess collation) {trace : List TraceCall}
    (hkept : trace.Sublist s.inSession) {rows : List CounterRow}
    (hrows : rows.Perm (counterTable process.name trace)) {option : PpSignal}
    {signal : TaskSignal} (hoption : option ∈ signal.ppSignal)
    (hsmall : ∀ f ∈ history.filterMap RecorderEvent.firing?, f.hook.SmallTaskReadings k)
    {comm : TaskComm} (hcomm : comm.text ≠ "CPU".toList) {pid : Pid}
    (hfits : comm.text.length + (formatNat pid.number).length + 2 +
      signal.format.toList.length ≤ 31) (bounds : Bounds)
    (hordered : OrderedRows (signal.track comm pid)
      (saTrackInit collation rows option.name)) :
    ∃ values, KeepsValues s trace ((history.filterMap RecorderEvent.firing?).filterMap
          (Firing.taskValue? k user.opts signal comm pid)) values ∧
      (counterRows (signal.track comm pid) (saTrackInit collation rows option.name)).Perm
        (values.map (sampleRow process.name (signal.track comm pid))) ∧
      DrawsSteps bounds (plottedTrack bounds (signal.track comm pid)
        (saTrackInit collation rows option.name)) values := by
  obtain ⟨values, hpart, htable⟩ :=
    taskCounter_rows hrun process hkept hrows hoption hsmall hcomm hfits
  exact ⟨values, hpart, htable,
    drawsSteps_of_perm bounds htable hordered.sorted hordered.distinct⟩

/-- The utilisation of tasks is reported. -/
def taskUser : UserState :=
  .initial { SaOpts.initial with utilAvgTask := true }

theorem smallTaskReadings_shortLife {f : Firing} (hf : f ∈ shortLife "sh" "sh") :
    f.hook.SmallTaskReadings (.complete 0) := by
  simp only [shortLife, List.mem_cons, List.not_mem_nil, or_false] at hf
  intro signal reading hreading
  rcases hf with rfl | rfl
  · revert reading
    cases signal <;> decide
  · obtain rfl := Option.some.inj hreading
    decide

theorem taskCounter_plot_sh :
    ∃ s, recorderRun (.complete 0) taskUser (shortRecording .taskPelt (shortLife "sh" "sh")) =
        some s ∧
      ∃ values, KeepsValues s s.inSession ((shortLife "sh" "sh").filterMap (Firing.taskValue?
            (.complete 0) taskUser.opts .utilAvg (someTask "sh").taskComm (someTask "sh").pid))
              values ∧
        (counterRows (TaskSignal.utilAvg.track (someTask "sh").taskComm (someTask "sh").pid)
            (saTrackInit .asciiNoCase (counterTable (recorder .asciiNoCase).name s.inSession)
              PpSignal.utilAvg.name)).Perm
          (values.map (sampleRow (recorder .asciiNoCase).name
            (TaskSignal.utilAvg.track (someTask "sh").taskComm (someTask "sh").pid))) ∧
        DrawsSteps (Bounds.ofTrace 0 300000) (plottedTrack (Bounds.ofTrace 0 300000)
          (TaskSignal.utilAvg.track (someTask "sh").taskComm (someTask "sh").pid)
          (saTrackInit .asciiNoCase (counterTable (recorder .asciiNoCase).name s.inSession)
            PpSignal.utilAvg.name)) values := by
  obtain ⟨s, hrun, hinSession⟩ : ∃ s, recorderRun (.complete 0) taskUser
      (shortRecording .taskPelt (shortLife "sh" "sh")) = some s ∧
        s.inSession = [.task .utilAvg 1000 "sh".toList 42 300,
          .task .uclampedAvg 1000 "sh".toList 42 0, .task .utilAvg 2000 "sh".toList 42 0,
          .task .uclampedAvg 2000 "sh".toList 42 0] :=
    Option.map_eq_some_iff.mp (by decide)
  have hoption : PpSignal.utilAvg ∈ TaskSignal.utilAvg.ppSignal := rfl
  have hsmall : ∀ f ∈ (shortRecording .taskPelt (shortLife "sh" "sh")).filterMap
      RecorderEvent.firing?, f.hook.SmallTaskReadings (.complete 0) := by
    intro f hf
    have hf : f ∈ shortLife "sh" "sh" := hf
    exact smallTaskReadings_shortLife hf
  have hordered : OrderedRows (TaskSignal.utilAvg.track (someTask "sh").taskComm (someTask "sh").pid)
      (saTrackInit .asciiNoCase (counterTable (recorder .asciiNoCase).name s.inSession)
        PpSignal.utilAvg.name) := by
    rw [hinSession]
    constructor <;> decide
  exact ⟨s, hrun, taskCounter_plot hrun (recorder .asciiNoCase) (List.Sublist.refl _)
    (List.Perm.refl _) hoption hsmall (by decide) (by decide) _ hordered⟩

end SchedAnalyzer
