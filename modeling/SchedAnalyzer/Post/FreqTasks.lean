import SchedAnalyzer.Post.Freq
import SchedAnalyzer.Post.GridBars
import SchedAnalyzer.Post.StatesSummary

/-! # The frequency of a task

`plot_task_tui` of `freq.py` shows, for each CPU that a task has run on, the frequency
of the CPU while the task runs on it. The states of the task on other CPUs are taken
out first, those without a CPU stay.
-/

namespace SchedAnalyzer

open Foundation.DataFrame Foundation.Lists Foundation.Regex

/-- `df_tid[(df_tid.cpu == cpu) | (df_tid.cpu.isna())]`. -/
def tidOnCpu {Time : Type} (cpu : ℕ) (dfTid : Frame Time StateCell) : Frame Time StateCell :=
  dfTid.filter fun row => row.cell .cpu = some cpu ∨ row.cell .cpu = none

/-- The frequency of a CPU while a task runs on it. -/
def freqOfTid (bounds : Bounds) (dfFreq : Frame ℤ (SeriesCell ℕ)) (cpu : ℕ)
    (dfTid : Frame ℤ StateCell) : Frame ℚ (SeriesCell ℕ) :=
  multiplyDfTidRunning bounds (convertTs bounds (rowsOfCpu cpu dfFreq) true) (tidOnCpu cpu dfTid)

/-- A name, a tid and a CPU. -/
abbrev TaskOnCpu : Type := (_ : String) × (_ : ℕ) × ℕ

/-- `df_thread[df_thread.tid == tid]`, of the rows with a name. -/
def rowsOfTid {Time : Type} (df : Frame Time StateCell) (thread : String) (tid : ℕ) :
    Frame Time StateCell :=
  (df.filter fun row => row.cell .name = some thread).filter fun row => row.cell .tid = some tid

/-- The loops over the names, their tids, and the CPUs that these have run on. -/
def tasksOnCpus {Time : Type} (df : Frame Time StateCell) : List TaskOnCpu :=
  (groupKeys StateCol.name df).sigma fun thread =>
    (groupKeys StateCol.tid (df.filter fun row => row.cell .name = some thread)).sigma fun tid =>
      groupKeys StateCol.cpu
        ((rowsOfTid df thread tid).filter fun row => row.cell .state = some "Running")

/-- What is plotted for a task and a CPU: the title, and the frequency. -/
structure FreqPlot where
  task : TaskOnCpu
  df : Frame ℚ (SeriesCell ℕ)

def freqPlot (bounds : Bounds) (dfFreq : Frame ℤ (SeriesCell ℕ)) (df : Frame ℤ StateCell)
    (task : TaskOnCpu) : FreqPlot :=
  ⟨task, freqOfTid bounds dfFreq task.2.2 (rowsOfTid df task.1 task.2.1)⟩

/-- The common part of the plots of tasks. A pattern that is refused raises. -/
def freqPlots (engine : Engine) (bounds : Bounds) (dfFreq : Frame ℤ (SeriesCell ℕ))
    (dfStates : Frame ℤ StateCell) (threads : List String) : Option (List FreqPlot) :=
  if dfFreq.isEmpty || dfStates.isEmpty then some []
  else
    (threads.mapM fun thread => do
      let df ← strContains engine (fun row => row.cell .name) thread dfStates
      return (tasksOnCpus df).map (freqPlot bounds dfFreq df)).map List.flatten

/-- `plot_task_tui(plt, threads)`: an empty table is not plotted. -/
def plotTaskTui (engine : Engine) (bounds : Bounds) (dfFreq : Frame ℤ (SeriesCell ℕ))
    (dfStates : Frame ℤ StateCell) (threads : List String) : Option (List FreqPlot) :=
  (freqPlots engine bounds dfFreq dfStates threads).map
    (List.filter fun plot => !plot.df.isEmpty)

/-- `plot_task_residency_tui(plt, threads, abs)`. -/
def plotTaskResidencyTui (engine : Engine) (bounds : Bounds) (dfFreq : Frame ℤ (SeriesCell ℕ))
    (dfStates : Frame ℤ StateCell) (threads : List String) (abs : Bool) :
    Option (List (TaskOnCpu × Residency (Frame ℚ (SeriesCell ℕ)) (List (ℚ × ℚ)))) :=
  (freqPlots engine bounds dfFreq dfStates threads).map fun plots =>
    (plots.map fun plot => (plot.task, genDfDurationGroupby plot.df .value abs)).filter
      fun bars => !bars.2.isEmpty

/-! ## The states of a task -/

/-- The states of a thread as the trace has them: it has a CPU while it runs and only
then, it stops before it runs again, and its process has a name or not. -/
structure ThreadStates (rows : Frame ℤ StateCell) : Prop extends StateRows rows where
  distinct : (rows.map Row.ts).Nodup
  onCpu : ∀ row ∈ rows, (row.cell .cpu).isSome = true ↔ row.cell .state = some "Running"
  stops : rows.IsChain fun row next =>
    row.cell .state = some "Running" → next.cell .state ≠ some "Running"

/-- The factor that a run gives to an instant: one while it lasts. Of a run that is the last
state only the start counts, and if it is still open its factor is its duration. -/
inductive RunFactor (bounds : Bounds) (rows : Frame ℤ StateCell) (row : Row ℤ StateCell)
    (ts : ℤ) : ℚ → Prop
  | running (hnotLast : rows.getLast? ≠ some row) (hover : RunsOver bounds row ts) :
      RunFactor bounds rows row ts 1
  | lastStart {dur : ℚ} (hlast : rows.getLast? = some row)
      (hstate : row.cell .state = some "Running") (hts : row.ts = ts)
      (hdur : row.cell .dur = some dur) :
      RunFactor bounds rows row ts (if 0 < dur then 1 else dur)

theorem RunFactor.state {bounds : Bounds} {rows : Frame ℤ StateCell} {row : Row ℤ StateCell}
    {ts : ℤ} {factor : ℚ} (hfactor : RunFactor bounds rows row ts factor) :
    row.cell .state = some "Running" := by
  cases hfactor with
  | running _ hover => exact hover.1
  | lastStart _ hstate => exact hstate

section States

variable {bounds : Bounds} {rows : Frame ℤ StateCell} {cpu : ℕ} {ts : ℤ}

theorem mem_tidOnCpu {row : Row ℤ StateCell} :
    row ∈ tidOnCpu cpu rows ↔ row ∈ rows ∧ (row.cell .cpu = some cpu ∨ row.cell .cpu = none) := by
  rw [tidOnCpu, List.mem_filter, decide_eq_true_eq]

/-- A run that is not the last state ends with a state that is no run. -/
theorem ThreadStates.exists_stop (hrows : ThreadStates rows) {row : Row ℤ StateCell}
    (hrow : row ∈ rows) (hstate : row.cell .state = some "Running")
    (hnotLast : rows.getLast? ≠ some row) :
    ∃ next ∈ rows, next.cell .state ≠ some "Running" ∧ row.ts < next.ts ∧
      row.cell .dur = some ((next.ts - row.ts : ℤ) : ℚ) := by
  obtain ⟨before, tail, hsplit⟩ := List.append_of_mem hrow
  cases tail with
  | nil =>
      rw [hsplit] at hnotLast
      exact absurd List.getLast?_concat hnotLast
  | cons next after =>
      have hsorted := hrows.sorted
      have hdistinct := hrows.distinct
      have hstops := hrows.stops
      rw [hsplit] at hsorted hstops
      rw [hsplit, List.map_append, List.map_cons, List.map_cons] at hdistinct
      have hle : row.ts ≤ next.ts :=
        (List.pairwise_cons.mp (List.pairwise_append.mp hsorted).2.1).1 next List.mem_cons_self
      have hnotMem := (List.nodup_cons.mp (List.nodup_append.mp hdistinct).2.1).1
      have hne : row.ts ≠ next.ts := fun heq => hnotMem (heq ▸ List.mem_cons_self)
      have hnext : next ∈ rows := hsplit ▸ by simp
      exact ⟨next, hnext, (List.isChain_append_cons_cons.mp hstops).2.1 hstate,
        lt_of_le_of_ne hle hne, hrows.closed_of_split hsplit⟩

/-- A run that is over lasts until its end, which is in the rows for every CPU. -/
theorem runsOver_iff {row next : Row ℤ StateCell} (hstate : row.cell .state = some "Running")
    (hlt : row.ts < next.ts) (hdur : row.cell .dur = some ((next.ts - row.ts : ℤ) : ℚ)) :
    RunsOver bounds row ts ↔ row.ts ≤ ts ∧ ts < next.ts := by
  constructor
  · rintro ⟨-, hle, dur, hsame, hcovers⟩
    obtain rfl := Option.some.inj (hsame.symm.trans hdur)
    refine ⟨hle, ?_⟩
    rcases hcovers with ⟨hopen, -⟩ | hlt'
    · have hpositive : (0 : ℚ) < ((next.ts - row.ts : ℤ) : ℚ) :=
        Int.cast_pos.mpr (sub_pos.mpr hlt)
      rw [hopen] at hpositive
      exact absurd hpositive (by norm_num)
    · push_cast at hlt'
      rw [add_sub_cancel] at hlt'
      exact_mod_cast hlt'
  · rintro ⟨hle, hbefore⟩
    refine ⟨hstate, hle, _, hdur, .inr ?_⟩
    push_cast
    rw [add_sub_cancel]
    exact_mod_cast hbefore

/-- A run that is not the last state lasts for some time. -/
theorem ThreadStates.exists_dur_pos (hrows : ThreadStates rows) {row : Row ℤ StateCell}
    (hrow : row ∈ rows) (hstate : row.cell .state = some "Running")
    (hnotLast : rows.getLast? ≠ some row) : ∃ dur, row.cell .dur = some dur ∧ 0 < dur := by
  obtain ⟨next, -, -, hlt, hdur⟩ := hrows.exists_stop hrow hstate hnotLast
  exact ⟨_, hdur, Int.cast_pos.mpr (sub_pos.mpr hlt)⟩

theorem ThreadStates.firstOfLatest_filter (hrows : ThreadStates rows)
    {keep : Row ℤ StateCell → Bool} {row : Row ℤ StateCell} (hkept : keep row = true)
    (hlatest : lastUpTo rows ts = some row) : firstOfLatest (rows.filter keep) ts = some row := by
  have hrow := (mem_of_lastUpTo hlatest).1
  apply firstOfLatest_eq_of_unique (lastUpTo_filter hlatest hkept)
  intro other hother
  exact List.inj_on_of_nodup_map hrows.distinct (List.mem_filter.mp hother).1 hrow

theorem ThreadStates.isComplete_of_running (hrows : ThreadStates rows) {row : Row ℤ StateCell}
    (hrow : row ∈ rows) (hstate : row.cell .state = some "Running")
    (hparent : (row.cell .parent).isSome = true) : row.IsComplete := by
  intro column
  cases column with
  | cpu => exact (hrows.onCpu row hrow).mpr hstate
  | parent => exact hparent
  | _ => exact hrows.present row hrow _ (by decide) (by decide)

variable {parent : Option String}

section Kept

variable {keep : Row ℤ StateCell → Bool}

/-- Of a thread whose runs are partly left out, the one that is seen gives its factor. -/
theorem ThreadStates.exists_runFactor_of_seenRunning (hrows : ThreadStates rows)
    (hkeep : ∀ row ∈ rows, row.cell .state ≠ some "Running" → keep row = true) {dur : ℚ}
    (hseen : SeenRunning bounds (rows.filter keep) ts dur) :
    ∃ row ∈ rows, keep row = true ∧
      RunFactor bounds rows row ts (if 0 < dur then 1 else dur) := by
  have hsorted : Sorted (rows.filter keep) := hrows.sorted.sublist List.filter_sublist
  obtain ⟨-, hinTime, row, hfirst, hstate, hdur⟩ := hseen
  obtain ⟨hmem, hle⟩ := mem_of_firstOfLatest hfirst
  obtain ⟨hrow, hkept⟩ := List.mem_filter.mp hmem
  refine ⟨row, hrow, hkept, ?_⟩
  by_cases hisLast : rows.getLast? = some row
  · -- The rows after the start of the last one are chopped off.
    obtain ⟨keptLast, hkeptLast⟩ : ∃ last, (rows.filter keep).getLast? = some last :=
      ⟨_, List.getLast?_eq_some_getLast (List.ne_nil_of_mem hmem)⟩
    have hkeptRow := (List.mem_filter.mp (List.mem_of_getLast? hkeptLast)).1
    have hchopped : ts ≤ row.ts :=
      (hinTime keptLast hkeptLast).trans (le_of_getLast? hrows.sorted hisLast hkeptRow)
    exact .lastStart hisLast hstate (le_antisymm hle hchopped) hdur
  · obtain ⟨dur', hdur', hpositive⟩ := hrows.exists_dur_pos hrow hstate hisLast
    obtain rfl := Option.some.inj (hdur.symm.trans hdur')
    rw [if_pos hpositive]
    apply RunFactor.running hisLast
    obtain ⟨next, hnext, hstopped, hlt, hnextDur⟩ := hrows.exists_stop hrow hstate hisLast
    rw [runsOver_iff hstate hlt hnextDur]
    refine ⟨hle, ?_⟩
    -- Otherwise the state after the run would be the latest one.
    obtain ⟨latest, hlatest⟩ : ∃ latest, lastUpTo (rows.filter keep) ts = some latest :=
      (Option.bind_eq_some_iff.mp hfirst).imp fun _ h => h.1
    have hsame := firstOfLatest_eq_of_unique hlatest fun other hother =>
      List.inj_on_of_nodup_map (hrows.distinct.sublist (List.filter_sublist.map Row.ts)) hother
        (mem_of_lastUpTo hlatest).1
    obtain rfl := Option.some.inj (hfirst.symm.trans hsame)
    by_contra hreached
    have hnextKept := List.mem_filter.mpr ⟨hnext, hkeep next hnext hstopped⟩
    exact absurd (le_of_lastUpTo hsorted hlatest hnextKept (not_lt.mp hreached)) (not_le.mpr hlt)

/-- A run that is kept and has no missing field is seen at the instants of its factor. -/
theorem ThreadStates.exists_seenRunning_of_runFactor (hrows : ThreadStates rows)
    (hkeep : ∀ row ∈ rows, row.cell .state ≠ some "Running" → keep row = true)
    (hts : ts ∈ gridWindow bounds) {row : Row ℤ StateCell} (hrow : row ∈ rows)
    (hkept : keep row = true) (hcomplete : row.IsComplete) {factor : ℚ}
    (hfactor : RunFactor bounds rows row ts factor) :
    ∃ dur, SeenRunning bounds (rows.filter keep) ts dur ∧ factor = if 0 < dur then 1 else dur := by
  have hsorted : Sorted (rows.filter keep) := hrows.sorted.sublist List.filter_sublist
  cases hfactor with
  | running hnotLast hover =>
      obtain ⟨dur, hdur, hpositive⟩ := hrows.exists_dur_pos hrow hover.1 hnotLast
      obtain ⟨next, hnext, hstopped, hlt, hnextDur⟩ := hrows.exists_stop hrow hover.1 hnotLast
      have hfirst := hrows.firstOfLatest_filter hkept
        (lastUpTo_of_runsOver hrows.toStateRows hrow hover)
      refine ⟨dur, ⟨⟨ts, hts, row, hfirst, hcomplete⟩, ?_, row, hfirst, hover.1, hdur⟩,
        (if_pos hpositive).symm⟩
      intro last hlast
      have hbefore := ((runsOver_iff hover.1 hlt hnextDur).mp hover).2
      have hnextKept := List.mem_filter.mpr ⟨hnext, hkeep next hnext hstopped⟩
      exact hbefore.le.trans (le_of_getLast? hsorted hlast hnextKept)
  | lastStart hlast hstate hat hdur =>
      subst hat
      have hfirst := hrows.firstOfLatest_filter hkept
        (lastUpTo_of_getLast? hlast (le_refl row.ts))
      refine ⟨_, ⟨⟨row.ts, hts, row, hfirst, hcomplete⟩, ?_, row, hfirst, hstate, hdur⟩, rfl⟩
      intro keptLast hkeptLast
      exact le_of_getLast? hsorted hkeptLast (List.mem_filter.mpr ⟨hrow, hkept⟩)

/-- Of a thread whose runs are partly left out, the others give their factors, if its process
has a name. -/
theorem ThreadStates.seenRunning_filter_iff (hrows : ThreadStates rows)
    (hkeep : ∀ row ∈ rows, row.cell .state ≠ some "Running" → keep row = true)
    (hparent : ∀ row ∈ rows, row.cell .parent = parent) (hts : ts ∈ gridWindow bounds)
    (factor : ℚ) :
    (∃ dur, SeenRunning bounds (rows.filter keep) ts dur ∧
        factor = if 0 < dur then 1 else dur) ↔
      parent.isSome = true ∧ ∃ row ∈ rows, keep row = true ∧
        RunFactor bounds rows row ts factor := by
  constructor
  · rintro ⟨dur, hseen, rfl⟩
    refine ⟨?_, hrows.exists_runFactor_of_seenRunning hkeep hseen⟩
    obtain ⟨_, -, complete, hcomplete, hisComplete⟩ := hseen.sees
    rw [← hparent complete (List.mem_filter.mp (mem_of_firstOfLatest hcomplete).1).1]
    exact hisComplete .parent
  · rintro ⟨hsome, row, hrow, hkept, hfactor⟩
    have hcomplete := hrows.isComplete_of_running hrow hfactor.state
      ((hparent row hrow).symm ▸ hsome)
    exact hrows.exists_seenRunning_of_runFactor hkeep hts hrow hkept hcomplete hfactor

end Kept

/-- The product with the states that are kept has the values times the factors of the kept
runs. -/
theorem ThreadStates.cellAt_multiply_filter {Track : Type} (hrows : ThreadStates rows)
    {df : Frame ℚ (SeriesCell Track)} (hdf : Resampled bounds df) {keep : Row ℤ StateCell → Bool}
    (hne : rows.filter keep ≠ [])
    (hkeep : ∀ row ∈ rows, row.cell .state ≠ some "Running" → keep row = true)
    (hparent : ∀ row ∈ rows, row.cell .parent = parent) (hts : ts ∈ gridWindow bounds)
    (value : ℚ) :
    cellAt (multiplyDfTidRunning bounds df (rows.filter keep)) .value (bounds.seconds ts) =
        some value ↔
      parent.isSome = true ∧ ∃ row ∈ rows, keep row = true ∧
        ∃ factor, RunFactor bounds rows row ts factor ∧
          ∃ sample, cellAt df .value (bounds.seconds ts) = some sample ∧
            value = sample * factor := by
  have hsorted : Sorted (rows.filter keep) := hrows.sorted.sublist List.filter_sublist
  have hlast := List.getLast?_eq_some_getLast hne
  rw [cellAt_multiplyDfTidRunning hdf hlast, mulCells, Option.bind_eq_some_iff]
  simp only [Option.map_eq_some_iff, cellAt_recodeDur_of_sorted hsorted hlast hts,
    hrows.seenRunning_filter_iff hkeep hparent hts]
  constructor
  · rintro ⟨sample, hsample, factor, ⟨hsome, row, hrow, hkept, hfactor⟩, rfl⟩
    exact ⟨hsome, row, hrow, hkept, factor, hfactor, sample, hsample, rfl⟩
  · rintro ⟨hsome, row, hrow, hkept, factor, hfactor, sample, hsample, rfl⟩
    exact ⟨sample, hsample, factor, ⟨hsome, row, hrow, hkept, hfactor⟩, rfl⟩

/-- The samples of each CPU are in order and have no missing fields. -/
structure FreqSamples (dfFreq : Frame ℤ (SeriesCell ℕ)) : Prop where
  sorted : ∀ cpu, Sorted (rowsOfCpu cpu dfFreq)
  complete : ∀ row ∈ dfFreq, row.IsComplete

/-- What `plot_tui` shows for a CPU at an instant. -/
def freqAt (bounds : Bounds) (dfFreq : Frame ℤ (SeriesCell ℕ)) (cpu : ℕ) (ts : ℤ) : Option ℚ :=
  cellAt (convertTs bounds (rowsOfCpu cpu dfFreq) true) .value (bounds.seconds ts)

theorem FreqSamples.gridTable {dfFreq : Frame ℤ (SeriesCell ℕ)} (hfreq : FreqSamples dfFreq)
    (bounds : Bounds) (cpu : ℕ) :
    GridTable bounds (convertTs bounds (rowsOfCpu cpu dfFreq) true) := by
  apply convertTs_gridTable bounds (hfreq.sorted cpu)
  intro sample hsample
  exact hfreq.complete sample (List.mem_filter.mp hsample).1

theorem FreqSamples.gridTable_freqPlot {dfFreq : Frame ℤ (SeriesCell ℕ)}
    (hfreq : FreqSamples dfFreq) (bounds : Bounds) (df : Frame ℤ StateCell) (task : TaskOnCpu) :
    GridTable bounds (freqPlot bounds dfFreq df task).df :=
  (hfreq.gridTable bounds task.2.2).multiply _

/-- The frequency of the CPU is shown with the factors of the runs on it. -/
theorem ThreadStates.cellAt_freqOfTid (hrows : ThreadStates rows)
    {dfFreq : Frame ℤ (SeriesCell ℕ)} (hfreq : FreqSamples dfFreq)
    (hran : ∃ row ∈ rows, row.cell .cpu = some cpu)
    (hparent : ∀ row ∈ rows, row.cell .parent = parent) (hts : ts ∈ gridWindow bounds)
    (value : ℚ) :
    cellAt (freqOfTid bounds dfFreq cpu rows) .value (bounds.seconds ts) = some value ↔
      parent.isSome = true ∧ ∃ row ∈ rows, row.cell .cpu = some cpu ∧
        ∃ factor, RunFactor bounds rows row ts factor ∧
          ∃ freq, freqAt bounds dfFreq cpu ts = some freq ∧ value = freq * factor := by
  obtain ⟨first, hfirst, hcpu⟩ := hran
  have hne : tidOnCpu cpu rows ≠ [] :=
    List.ne_nil_of_mem (mem_tidOnCpu.mpr ⟨hfirst, .inl hcpu⟩)
  rw [freqOfTid, tidOnCpu, hrows.cellAt_multiply_filter (hfreq.gridTable bounds cpu).toResampled hne
    ?_ hparent hts, ← freqAt]
  · apply and_congr_right
    intro _
    apply exists_congr
    intro row
    apply and_congr_right
    intro hrow
    -- A run has a CPU, so it is kept for this one only.
    have hon : row.cell .state = some "Running" → row.cell .cpu ≠ none := fun hstate =>
      Option.isSome_iff_ne_none.mp ((hrows.onCpu row hrow).mpr hstate)
    rw [decide_eq_true_eq]
    constructor
    · rintro ⟨hsome | hnone, factor, hfactor, hvalue⟩
      · exact ⟨hsome, factor, hfactor, hvalue⟩
      · exact absurd hnone (hon hfactor.state)
    · rintro ⟨hsome, hvalue⟩
      exact ⟨.inl hsome, hvalue⟩
  · intro row hrow hstate
    have hnone : row.cell .cpu = none := by
      by_contra hsome
      exact hstate ((hrows.onCpu row hrow).mp (Option.isSome_iff_ne_none.mpr hsome))
    exact decide_eq_true (.inr hnone)

end States

/-! ## The plots -/

/-- The rows of a task. -/
def TaskOnCpu.rows (task : TaskOnCpu) (dfStates : Frame ℤ StateCell) : Frame ℤ StateCell :=
  dfStates.filter fun row => IsTaskRow task.1 task.2.1 row

/-- Every task of the table has its states as the trace has them, and one process. -/
def TaskTable (dfStates : Frame ℤ StateCell) : Prop :=
  ∀ task : TaskOnCpu, task.rows dfStates ≠ [] → ThreadStates (task.rows dfStates) ∧
    ∃ parent, ∀ row ∈ task.rows dfStates, row.cell .parent = parent

/-- What is seen of a task on a CPU at an instant, if its process has a name: the frequency
at which it runs there, with the factor of the run. -/
structure TaskOnCpu.Sees (task : TaskOnCpu) (bounds : Bounds) (dfFreq : Frame ℤ (SeriesCell ℕ))
    (dfStates : Frame ℤ StateCell) (ts : ℤ) (value : ℚ) : Prop where
  named : ∃ row ∈ task.rows dfStates, (row.cell .parent).isSome = true
  running : ∃ row ∈ task.rows dfStates, row.cell .cpu = some task.2.2 ∧
    ∃ factor, RunFactor bounds (task.rows dfStates) row ts factor ∧
      ∃ freq, freqAt bounds dfFreq task.2.2 ts = some freq ∧ value = freq * factor

/-- The plots for a pattern: each task and CPU once, with what is seen of the task there,
and no plot where nothing is. -/
structure ShowsTaskFreqs (found : List Char → Bool) (bounds : Bounds)
    (dfFreq : Frame ℤ (SeriesCell ℕ)) (dfStates : Frame ℤ StateCell) (plots : List FreqPlot) :
    Prop where
  once : (plots.map FreqPlot.task).Nodup
  matched : ∀ plot ∈ plots, found plot.task.1.toList = true
  curve : ∀ plot ∈ plots, ∀ ts ∈ gridWindow bounds, ∀ value,
    cellAt plot.df .value (bounds.seconds ts) = some value ↔
      plot.task.Sees bounds dfFreq dfStates ts value
  plotted : ∀ task : TaskOnCpu, found task.1.toList = true →
    ((∃ plot ∈ plots, plot.task = task) ↔
      ∃ ts ∈ gridWindow bounds, ∃ value, task.Sees bounds dfFreq dfStates ts value)

section Plots

variable {found : List Char → Bool} {bounds : Bounds} {dfFreq : Frame ℤ (SeriesCell ℕ)}
  {dfStates : Frame ℤ StateCell}

/-- The rows whose name the pattern finds. -/
def withFoundName (found : List Char → Bool) (dfStates : Frame ℤ StateCell) : Frame ℤ StateCell :=
  dfStates.filter fun row => (row.cell .name).any fun name => found name.toList

theorem rowsOfTid_withFoundName {thread : String} (hfound : found thread.toList = true)
    (tid cpu : ℕ) :
    rowsOfTid (withFoundName found dfStates) thread tid =
      TaskOnCpu.rows ⟨thread, tid, cpu⟩ dfStates := by
  rw [rowsOfTid, withFoundName, TaskOnCpu.rows, List.filter_filter, List.filter_filter]
  apply List.filter_congr
  intro row _
  rw [Bool.eq_iff_iff]
  simp only [Bool.and_eq_true, decide_eq_true_eq]
  constructor
  · rintro ⟨⟨htid, hname⟩, -⟩
    exact ⟨hname, htid⟩
  · rintro ⟨hname, htid⟩
    rw [hname]
    exact ⟨⟨htid, rfl⟩, hfound⟩

/-- A task is met on a CPU if its name is found and it runs there in the trace. -/
theorem mem_tasksOnCpus_iff {task : TaskOnCpu} :
    task ∈ tasksOnCpus (withFoundName found dfStates) ↔ found task.1.toList = true ∧
      ∃ row ∈ task.rows dfStates, row.cell .state = some "Running" ∧
        row.cell .cpu = some task.2.2 := by
  obtain ⟨thread, tid, cpu⟩ := task
  rw [tasksOnCpus, List.mem_sigma, List.mem_sigma, mem_groupKeys_iff, mem_groupKeys_iff,
    mem_groupKeys_iff]
  constructor
  · rintro ⟨⟨first, hfirst, hname⟩, -, row, hrow, hcpu⟩
    obtain ⟨hrow, hstate⟩ := List.mem_filter.mp hrow
    have hfound : found thread.toList = true := by
      have hany := (List.mem_filter.mp hfirst).2
      rwa [hname] at hany
    rw [rowsOfTid_withFoundName hfound tid cpu] at hrow
    exact ⟨hfound, row, hrow, of_decide_eq_true hstate, hcpu⟩
  · rintro ⟨hfound, row, hrow, hstate, hcpu⟩
    rw [rowsOfTid_withFoundName hfound tid cpu]
    obtain ⟨hmem, htask⟩ := List.mem_filter.mp hrow
    have hboth : IsTaskRow thread tid row := of_decide_eq_true htask
    obtain ⟨hname, htid⟩ := hboth
    have hkept : row ∈ withFoundName found dfStates :=
      List.mem_filter.mpr ⟨hmem, by rw [hname]; exact hfound⟩
    exact ⟨⟨row, hkept, hname⟩,
      ⟨row, List.mem_filter.mpr ⟨hkept, decide_eq_true hname⟩, htid⟩,
      row, List.mem_filter.mpr ⟨hrow, decide_eq_true hstate⟩, hcpu⟩

theorem tasksOnCpus_nodup (df : Frame ℤ StateCell) : (tasksOnCpus df).Nodup :=
  (groupKeys_nodup _).sigma fun _ => (groupKeys_nodup _).sigma fun _ => groupKeys_nodup _

/-- The table of a task has what is seen of it. -/
theorem TaskOnCpu.cellAt_freqPlot {task : TaskOnCpu} (hfreq : FreqSamples dfFreq)
    (htable : TaskTable dfStates) (hfound : found task.1.toList = true)
    (hran : ∃ row ∈ task.rows dfStates, row.cell .cpu = some task.2.2) {ts : ℤ}
    (hts : ts ∈ gridWindow bounds) (value : ℚ) :
    cellAt (freqPlot bounds dfFreq (withFoundName found dfStates) task).df .value
        (bounds.seconds ts) = some value ↔ task.Sees bounds dfFreq dfStates ts value := by
  obtain ⟨first, hfirst, hcpu⟩ := hran
  obtain ⟨hrows, parent, hparent⟩ := htable task (List.ne_nil_of_mem hfirst)
  rw [freqPlot, rowsOfTid_withFoundName hfound task.2.1 task.2.2,
    hrows.cellAt_freqOfTid hfreq ⟨first, hfirst, hcpu⟩ hparent hts]
  constructor
  · rintro ⟨hsome, hruns⟩
    exact ⟨⟨first, hfirst, (hparent first hfirst).symm ▸ hsome⟩, hruns⟩
  · rintro ⟨⟨row, hrow, hsome⟩, hruns⟩
    exact ⟨hparent row hrow ▸ hsome, hruns⟩

/-- A task that is seen on a CPU has run there. -/
theorem TaskOnCpu.Sees.ran {task : TaskOnCpu} {ts : ℤ} {value : ℚ}
    (hsees : task.Sees bounds dfFreq dfStates ts value) :
    ∃ row ∈ task.rows dfStates, row.cell .state = some "Running" ∧
      row.cell .cpu = some task.2.2 := by
  obtain ⟨row, hrow, hcpu, _, hfactor, -⟩ := hsees.running
  exact ⟨row, hrow, hfactor.state, hcpu⟩

/-- The tasks and CPUs whose table is not empty. -/
def shownTasks (bounds : Bounds) (dfFreq : Frame ℤ (SeriesCell ℕ)) (df : Frame ℤ StateCell) :
    List TaskOnCpu :=
  (tasksOnCpus df).filter fun task => !(freqPlot bounds dfFreq df task).df.isEmpty

theorem mem_shownTasks_iff {df : Frame ℤ StateCell} {task : TaskOnCpu} :
    task ∈ shownTasks bounds dfFreq df ↔
      task ∈ tasksOnCpus df ∧ (freqPlot bounds dfFreq df task).df ≠ [] := by
  rw [shownTasks, List.mem_filter, Bool.not_eq_true', List.isEmpty_eq_false_iff]

theorem freqPlots_eq {engine : Engine} {thread : String}
    (hfound : engine.compile thread.toList = some found) (hfreqNe : dfFreq ≠ [])
    (hstatesNe : dfStates ≠ []) :
    freqPlots engine bounds dfFreq dfStates [thread] =
      some ((tasksOnCpus (withFoundName found dfStates)).map
        (freqPlot bounds dfFreq (withFoundName found dfStates))) := by
  simp [freqPlots, hfreqNe, hstatesNe, strContains, hfound, withFoundName]

theorem plotTaskTui_eq {engine : Engine} {thread : String}
    (hfound : engine.compile thread.toList = some found) (hfreqNe : dfFreq ≠ [])
    (hstatesNe : dfStates ≠ []) :
    plotTaskTui engine bounds dfFreq dfStates [thread] =
      some ((shownTasks bounds dfFreq (withFoundName found dfStates)).map
        (freqPlot bounds dfFreq (withFoundName found dfStates))) := by
  rw [plotTaskTui, freqPlots_eq hfound hfreqNe hstatesNe, Option.map_some, List.filter_map]
  rfl

/-- A task whose name is found is shown with a CPU if something is seen of it there. -/
theorem mem_shownTasks_iff_sees {task : TaskOnCpu} (hfreq : FreqSamples dfFreq)
    (htable : TaskTable dfStates) (hfound : found task.1.toList = true) :
    task ∈ shownTasks bounds dfFreq (withFoundName found dfStates) ↔
      ∃ ts ∈ gridWindow bounds, ∃ value, task.Sees bounds dfFreq dfStates ts value := by
  -- A table is not empty if it has a value, and it has those that are seen.
  have hshown : (∃ row ∈ task.rows dfStates, row.cell .cpu = some task.2.2) →
      ((freqPlot bounds dfFreq (withFoundName found dfStates) task).df ≠ [] ↔
        ∃ ts ∈ gridWindow bounds, ∃ value, task.Sees bounds dfFreq dfStates ts value) := by
    intro hran
    rw [(hfreq.gridTable_freqPlot bounds _ task).ne_nil_iff]
    apply exists_congr
    intro ts
    apply and_congr_right
    intro hts
    apply exists_congr
    intro value
    exact TaskOnCpu.cellAt_freqPlot hfreq htable hfound hran hts value
  rw [mem_shownTasks_iff]
  constructor
  · rintro ⟨htask, hne⟩
    obtain ⟨-, row, hrow, -, hcpu⟩ := mem_tasksOnCpus_iff.mp htask
    exact (hshown ⟨row, hrow, hcpu⟩).mp hne
  · rintro ⟨ts, hts, value, hsees⟩
    obtain ⟨row, hrow, hstate, hcpu⟩ := hsees.ran
    exact ⟨mem_tasksOnCpus_iff.mpr ⟨hfound, row, hrow, hstate, hcpu⟩,
      (hshown ⟨row, hrow, hcpu⟩).mpr ⟨ts, hts, value, hsees⟩⟩

/-- Every task whose name is found is plotted once with each CPU where something is seen of
it at some instant, and the plot has what is seen. -/
theorem plotTaskTui_shows {engine : Engine} {thread : String}
    (hfound : engine.compile thread.toList = some found) (hfreqNe : dfFreq ≠ [])
    (hstatesNe : dfStates ≠ []) (hfreq : FreqSamples dfFreq) (htable : TaskTable dfStates) :
    ∃ plots, plotTaskTui engine bounds dfFreq dfStates [thread] = some plots ∧
      ShowsTaskFreqs found bounds dfFreq dfStates plots := by
  set df := withFoundName found dfStates with hdf
  have hmem : ∀ plot ∈ (shownTasks bounds dfFreq df).map (freqPlot bounds dfFreq df),
      plot.task ∈ shownTasks bounds dfFreq df ∧ plot = freqPlot bounds dfFreq df plot.task := by
    intro plot hplot
    obtain ⟨task, htask, rfl⟩ := List.mem_map.mp hplot
    exact ⟨htask, rfl⟩
  refine ⟨_, plotTaskTui_eq hfound hfreqNe hstatesNe, ?_, ?_, ?_, ?_⟩
  · rw [List.map_map]
    exact ((tasksOnCpus_nodup df).filter _).map_on fun _ _ _ _ heq => heq
  · intro plot hplot
    exact (mem_tasksOnCpus_iff.mp (mem_shownTasks_iff.mp (hmem plot hplot).1).1).1
  · intro plot hplot ts hts value
    obtain ⟨htask, heq⟩ := hmem plot hplot
    obtain ⟨hname, row, hrow, -, hcpu⟩ := mem_tasksOnCpus_iff.mp (mem_shownTasks_iff.mp htask).1
    rw [heq]
    exact TaskOnCpu.cellAt_freqPlot hfreq htable hname ⟨row, hrow, hcpu⟩ hts value
  · intro task hname
    rw [← mem_shownTasks_iff_sees hfreq htable hname]
    constructor
    · rintro ⟨plot, hplot, rfl⟩
      exact (hmem plot hplot).1
    · exact fun htask => ⟨_, List.mem_map_of_mem htask, rfl⟩

end Plots

/-- A state of a thread of one process. -/
def sleeperRow (ts : ℤ) (cpu : Option ℕ) (state : String) (dur : ℚ) : Row ℤ StateCell :=
  ⟨ts, fun
    | .cpu => cpu
    | .state => some state
    | .dur => some dur
    | .tid => some 7
    | .name => some "sleeper"
    | .parent => some "daemon"⟩

/-- A thread that runs on CPU 0 and sleeps from then on. -/
def sleeperStates : Frame ℤ StateCell :=
  [sleeperRow 0 (some 0) "Running" 200000, sleeperRow 200000 none "S" (-1)]

theorem sleeperStates_threadStates : ThreadStates sleeperStates where
  nonempty := List.cons_ne_nil _ _
  sorted := by simp [Sorted, sleeperStates, sleeperRow]
  closed := by simp [sleeperStates, sleeperRow]
  last := by simp [sleeperStates, sleeperRow]
  present := by
    intro row hrow column hcpu _
    rcases List.mem_pair.mp hrow with rfl | rfl <;> cases column <;>
      first | rfl | exact absurd rfl hcpu
  distinct := by simp [sleeperStates, sleeperRow]
  onCpu := by simp [sleeperStates, sleeperRow]
  stops := by simp [sleeperStates, sleeperRow]

theorem sleeperStates_taskTable : TaskTable sleeperStates := by
  intro task hne
  obtain ⟨row, hrow⟩ := List.exists_mem_of_ne_nil _ hne
  obtain ⟨hmem, htask⟩ := List.mem_filter.mp hrow
  -- Both rows have the name and the tid, so the task has them all or none.
  have hsame : ∀ row ∈ sleeperStates, ∀ other ∈ sleeperStates,
      IsTaskRow task.1 task.2.1 row → IsTaskRow task.1 task.2.1 other := by
    simp only [sleeperStates, sleeperRow, List.forall_mem_cons, IsTaskRow]
    simp
  have hall : task.rows sleeperStates = sleeperStates :=
    List.filter_eq_self.mpr fun other hother =>
      decide_eq_true (hsame row hmem other hother (of_decide_eq_true htask))
  rw [hall]
  exact ⟨sleeperStates_threadStates, some "daemon", by simp [sleeperStates, sleeperRow]⟩

theorem oneSample_freqSamples : FreqSamples (oneSample 0) where
  sorted _ := List.Pairwise.filter _ (List.pairwise_singleton _ _)
  complete := oneSample_complete 0

/-- The start of a run that is still open is shown below zero. -/
example : cellAt (freqOfTid (Bounds.ofTrace 0 300000) (oneSample 0) 0
    [sleeperRow 0 (some 0) "Running" (-1)]) .value 0 = some (-1) := by
  decide +kernel

theorem plotTaskTui_shows_sleeper :
    ∃ plots, plotTaskTui .basic (Bounds.ofTrace 0 300000) (oneSample 0) sleeperStates ["sleeper"] =
        some plots ∧
      ShowsTaskFreqs (fun text => decide ("sleeper".toList <:+: text)) (Bounds.ofTrace 0 300000)
        (oneSample 0) sleeperStates plots :=
  plotTaskTui_shows (Engine.basic.literal _ (by decide)) (List.cons_ne_nil _ _)
    (List.cons_ne_nil _ _) oneSample_freqSamples sleeperStates_taskTable

end SchedAnalyzer
