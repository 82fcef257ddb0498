import SchedAnalyzer.Post.FreqTasks

/-! # The frequency residency of a task

`plot_task_residency_tui` of `freq.py` takes the bars of a task and a CPU from the same
table that is plotted, so a bar counts the instants at which its value is seen.
-/

namespace SchedAnalyzer

open Foundation.DataFrame Foundation.Lists Foundation.Regex

/-! ## The bars -/

section Spec

variable (task : TaskOnCpu) (bounds : Bounds) (dfFreq : Frame ℤ (SeriesCell ℕ))
  (dfStates : Frame ℤ StateCell)

open Classical in
/-- At how many instants with a next one a value is seen of a task. -/
noncomputable def TaskOnCpu.instantsAt (value : ℚ) : ℕ :=
  (gridWindow bounds).dropLast.countP fun ts => task.Sees bounds dfFreq dfStates ts value

open Classical in
/-- At how many any is. -/
noncomputable def TaskOnCpu.instants : ℕ :=
  (gridWindow bounds).dropLast.countP fun ts =>
    ∃ value, task.Sees bounds dfFreq dfStates ts value

/-- In milliseconds, or in per cent of the time at which the task is seen on the CPU. -/
noncomputable def TaskOnCpu.share (abs : Bool) (value : ℚ) : ℚ :=
  if abs then task.instantsAt bounds dfFreq dfStates value / 10
  else 100 * (task.instantsAt bounds dfFreq dfStates value / task.instants bounds dfFreq dfStates)

end Spec

/-- The bars for a pattern: each task and CPU once, with a bar for every value that is seen
of the task there. -/
structure ShowsTaskShares (found : List Char → Bool) (bounds : Bounds)
    (dfFreq : Frame ℤ (SeriesCell ℕ)) (dfStates : Frame ℤ StateCell) (abs : Bool)
    (bars : List (TaskOnCpu × Residency (Frame ℚ (SeriesCell ℕ)) (List (ℚ × ℚ)))) : Prop where
  once : (bars.map Prod.fst).Nodup
  matched : ∀ bar ∈ bars, found bar.1.1.toList = true
  share : ∀ bar ∈ bars, ∀ value share,
    bar.2.at value = some share ↔
      (∃ ts ∈ gridWindow bounds, bar.1.Sees bounds dfFreq dfStates ts value) ∧
        bar.1.share bounds dfFreq dfStates abs value = share
  plotted : ∀ task : TaskOnCpu, found task.1.toList = true →
    ((∃ bar ∈ bars, bar.1 = task) ↔
      ∃ ts ∈ gridWindow bounds, ∃ value, task.Sees bounds dfFreq dfStates ts value)

section Bars

variable {found : List Char → Bool} {bounds : Bounds} {dfFreq : Frame ℤ (SeriesCell ℕ)}
  {dfStates : Frame ℤ StateCell}

/-- The shares of a table with what is seen of a task are those of the task. -/
theorem instantsShare_eq {task : TaskOnCpu} {table : Frame ℚ (SeriesCell ℕ)}
    (hsees : ∀ ts ∈ gridWindow bounds, ∀ value,
      cellAt table .value (bounds.seconds ts) = some value ↔
        task.Sees bounds dfFreq dfStates ts value) (abs : Bool) (value : ℚ) :
    instantsShare bounds table abs value = task.share bounds dfFreq dfStates abs value := by
  classical
  have hat : instantsAt bounds table value = task.instantsAt bounds dfFreq dfStates value := by
    apply List.countP_congr
    intro ts hts
    rw [decide_eq_true_eq, decide_eq_true_eq]
    exact hsees ts (List.dropLast_subset _ hts) value
  have hshown : instantsShown bounds table = task.instants bounds dfFreq dfStates := by
    apply List.countP_congr
    intro ts hts
    rw [Option.isSome_iff_exists, decide_eq_true_eq]
    exact exists_congr (hsees ts (List.dropLast_subset _ hts))
  rw [instantsShare, TaskOnCpu.share, hat, hshown]

/-- The bars of a task are those of its plot. -/
def taskBars (bounds : Bounds) (dfFreq : Frame ℤ (SeriesCell ℕ)) (df : Frame ℤ StateCell)
    (abs : Bool) (task : TaskOnCpu) :
    TaskOnCpu × Residency (Frame ℚ (SeriesCell ℕ)) (List (ℚ × ℚ)) :=
  (task, genDfDurationGroupby (freqPlot bounds dfFreq df task).df .value abs)

/-- There are bars for the tasks and CPUs that are plotted. -/
theorem plotTaskResidencyTui_eq {engine : Engine} {thread : String}
    (hfound : engine.compile thread.toList = some found) (hfreqNe : dfFreq ≠ [])
    (hstatesNe : dfStates ≠ []) (hfreq : FreqSamples dfFreq) (abs : Bool) :
    plotTaskResidencyTui engine bounds dfFreq dfStates [thread] abs =
      some ((shownTasks bounds dfFreq (withFoundName found dfStates)).map
        (taskBars bounds dfFreq (withFoundName found dfStates) abs)) := by
  rw [plotTaskResidencyTui, freqPlots_eq hfound hfreqNe hstatesNe, Option.map_some, List.map_map,
    List.filter_map, shownTasks]
  congr 2
  apply List.filter_congr
  intro task _
  rw [Function.comp_apply, Function.comp_apply, Bool.not_inj_iff, Bool.eq_iff_iff, List.isEmpty_iff]
  exact (hfreq.gridTable_freqPlot bounds _ task).isEmpty_genDfDurationGroupby abs

/-- Every task whose name is found has the shares of what is seen of it on each CPU where
something is. -/
theorem plotTaskResidencyTui_shows {engine : Engine} {thread : String}
    (hfound : engine.compile thread.toList = some found) (hfreqNe : dfFreq ≠ [])
    (hstatesNe : dfStates ≠ []) (hfreq : FreqSamples dfFreq) (htable : TaskTable dfStates)
    (abs : Bool) :
    ∃ bars, plotTaskResidencyTui engine bounds dfFreq dfStates [thread] abs = some bars ∧
      ShowsTaskShares found bounds dfFreq dfStates abs bars := by
  set df := withFoundName found dfStates with hdf
  have hmem : ∀ bar ∈ (shownTasks bounds dfFreq df).map (taskBars bounds dfFreq df abs),
      bar.1 ∈ shownTasks bounds dfFreq df ∧ bar = taskBars bounds dfFreq df abs bar.1 := by
    intro bar hbar
    obtain ⟨task, htask, rfl⟩ := List.mem_map.mp hbar
    exact ⟨htask, rfl⟩
  refine ⟨_, plotTaskResidencyTui_eq hfound hfreqNe hstatesNe hfreq abs, ?_, ?_, ?_, ?_⟩
  · rw [List.map_map]
    exact ((tasksOnCpus_nodup df).filter _).map_on fun _ _ _ _ heq => heq
  · intro bar hbar
    exact (mem_tasksOnCpus_iff.mp (mem_shownTasks_iff.mp (hmem bar hbar).1).1).1
  · intro bar hbar value share
    obtain ⟨htask, heq⟩ := hmem bar hbar
    obtain ⟨htask, -⟩ := mem_shownTasks_iff.mp htask
    obtain ⟨hname, row, hrow, -, hcpu⟩ := mem_tasksOnCpus_iff.mp htask
    have hsees : ∀ ts ∈ gridWindow bounds, ∀ value,
        cellAt (freqPlot bounds dfFreq df bar.1).df .value (bounds.seconds ts) = some value ↔
          bar.1.Sees bounds dfFreq dfStates ts value := fun ts hts value =>
      TaskOnCpu.cellAt_freqPlot hfreq htable hname ⟨row, hrow, hcpu⟩ hts value
    have hbars : bar.2 = genDfDurationGroupby (freqPlot bounds dfFreq df bar.1).df .value abs :=
      congrArg Prod.snd heq
    rw [hbars, (hfreq.gridTable_freqPlot bounds df bar.1).at_genDfDurationGroupby_iff,
      instantsShare_eq hsees]
    apply and_congr_left
    intro _
    exact exists_congr fun ts => and_congr_right fun hts => hsees ts hts value
  · intro task hname
    rw [← mem_shownTasks_iff_sees hfreq htable hname]
    constructor
    · rintro ⟨bar, hbar, rfl⟩
      exact (hmem bar hbar).1
    · exact fun htask => ⟨_, List.mem_map_of_mem htask, rfl⟩

end Bars

theorem plotTaskResidencyTui_shows_sleeper :
    ∃ bars, plotTaskResidencyTui .basic (Bounds.ofTrace 0 300000) (oneSample 0) sleeperStates
        ["sleeper"] true = some bars ∧
      ShowsTaskShares (fun text => decide ("sleeper".toList <:+: text)) (Bounds.ofTrace 0 300000)
        (oneSample 0) sleeperStates true bars :=
  plotTaskResidencyTui_shows (Engine.basic.literal _ (by decide)) (List.cons_ne_nil _ _)
    (List.cons_ne_nil _ _) oneSample_freqSamples sleeperStates_taskTable true

end SchedAnalyzer
