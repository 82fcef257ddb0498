import SchedAnalyzer.User.CommandLine
import SchedAnalyzer.User.TaskPelt

/-! # Filtering tasks by pid and comm

From the command line to the calls for one record: the parser keeps the first
pids and comms, the handler lets a record through when no filter is kept or one
of them selects the task.
-/

namespace SchedAnalyzer

open Foundation.CString

/-- Whether a command line asks for the samples of a task. -/
def Selects (line : List CliOption) (e : TaskPeltEvent) : Prop :=
  (pids line = [] ∧ comms line = []) ∨
    e.pid ∈ (pids line).take maxFiltersNum ∨
      ∃ text ∈ (comms line).take maxFiltersNum,
        (cstr text).take (taskCommLen - 1) <:+: cstr e.comm

/-- With the options a command line leaves, the handler reports exactly the tasks
the line asks for, and of them exactly the signals that are on and present.
Nothing is reported when the line is rejected. -/
def FiltersTasks (line : List CliOption) : Prop :=
  match parseCommandLine .initial (line.map CliOption.toArg) with
  | .accepted opts _ => ∀ e : TaskPeltEvent,
      (Selects line e →
        handleTaskPeltEvent opts e = (TaskSignal.all.filter (e.reports opts)).map e.call) ∧
      (¬ Selects line e → handleTaskPeltEvent opts e = [])
  | .rejected .. => True
  | .outOfBounds => False

theorem ignorePidComm_eq_false_iff (opts : SaOpts) (pid : Int32) (comm : List Char) :
    ignorePidComm opts pid comm = false ↔
      (opts.pid = [] ∧ opts.comm = []) ∨ pid ∈ opts.pid ∨
        ∃ filter ∈ opts.comm, cstr filter <:+: cstr comm := by
  simp only [ignorePidComm, List.length_eq_zero_iff]
  split
  next hnone => simp [hnone]
  next hsome =>
    split
    next hpid =>
      have hmem : pid ∈ opts.pid := by simpa [List.any_eq_true] using hpid
      simp [hmem]
    next hpid =>
      have hmem : pid ∉ opts.pid := by simpa [List.any_eq_true] using hpid
      split
      next hcomm =>
        have hexists : ∃ filter ∈ opts.comm, cstr filter <:+: cstr comm := by
          simpa [List.any_eq_true] using hcomm
        simp [hexists]
      next hcomm =>
        have hexists : ¬ ∃ filter ∈ opts.comm, cstr filter <:+: cstr comm := by
          simpa [List.any_eq_true] using hcomm
        simp [hsome, hmem, hexists]

/-- The filters that are kept ignore the tasks that are not asked for. -/
theorem ignorePidComm_eq_false_iff_selects {opts : SaOpts} {line : List CliOption}
    (hpid : opts.pid = (pids line).take maxFiltersNum)
    (hcomm : opts.comm = ((comms line).map commEntry).take maxFiltersNum) (e : TaskPeltEvent) :
    ignorePidComm opts e.pid e.comm = false ↔ Selects line e := by
  have hbound : maxFiltersNum ≠ 0 := by decide
  rw [ignorePidComm_eq_false_iff, hpid, hcomm, Selects]
  refine or_congr ?_ (or_congr Iff.rfl ?_)
  · simp [hbound]
  · simp only [← List.map_take, List.mem_map, exists_exists_and_eq_and, cstr_commEntry]

/-- A line with options for tasks to be reported by stays within the arrays. -/
theorem fitsArrays_of_filtersTasks {line : List CliOption} (hfilters : FiltersTasks line) :
    FitsArrays line := by
  have hline := parsesLine line SaOpts.withinArrays_initial
  rw [← fitsAfter_initial_iff]
  rw [FiltersTasks] at hfilters
  generalize parseCommandLine .initial (line.map CliOption.toArg) = result at hline hfilters
  cases hline with
  | accepted hfits => exact hfits
  | rejected hfits => exact hfits
  | outOfBounds => exact hfilters.elim

/-- Tasks are filtered as the command line asks, if and only if no option without
a check of its counter is stored past its array. -/
theorem filtersTasks_iff (line : List CliOption) : FiltersTasks line ↔ FitsArrays line := by
  refine ⟨fitsArrays_of_filtersTasks, fun hfits => ?_⟩
  have hline := parsesLine line SaOpts.withinArrays_initial
  rw [FiltersTasks]
  generalize parseCommandLine .initial (line.map CliOption.toArg) = result at hline
  cases hline with
  | @accepted opts message _ hpid hcomm =>
      intro e
      have hignore := ignorePidComm_eq_false_iff_selects hpid hcomm e
      rw [handleTaskPeltEvent_eq]
      constructor
      · intro hselects
        rw [hignore.mpr hselects]
        rfl
      · intro hselects
        rw [if_pos (by simpa using mt hignore.mp hselects)]
  | rejected => exact trivial
  | outOfBounds hover => exact hover ((fitsAfter_initial_iff line).mpr hfits)

/-- More function filters than the array holds, and a pid. -/
def manyFunctionFilters : List CliOption :=
  List.replicate 131 (.other .functionFilter "vfs_*".toList (by decide) (by decide)) ++ [.pid 1]

/-- The stores of the last function filters are past their array. -/
theorem filtersTasks_fails_past_function_filter : ¬ FiltersTasks manyFunctionFilters := by
  refine mt fitsArrays_of_filtersTasks fun hfits => ?_
  have hcount := hfits .functionFilter
  have hall : ∀ option ∈ manyFunctionFilters, (!option.refused) = true := by
    intro option hoption
    rcases List.mem_append.mp hoption with hfilter | hpid
    · rw [List.eq_of_mem_replicate hfilter]
      rfl
    · rw [List.mem_singleton.mp hpid]
      rfl
  rw [storeCount, List.takeWhile_eq_self_iff.mpr hall, manyFunctionFilters, List.countP_append,
    List.countP_replicate] at hcount
  exact absurd hcount (by decide)

end SchedAnalyzer
