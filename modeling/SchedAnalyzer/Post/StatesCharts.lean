import Mathlib.Algebra.BigOperators.Ring.List
import Mathlib.Data.Rat.Floor
import SchedAnalyzer.Post.StatesSummary

/-! # The charts of a summary

What `states_summary` of `sched.py` draws for a thread: its time in every state and on
every CPU, as sums and then in percent. The second kind is scaled by the width of the
figure, which `settings.py` keeps.
-/

namespace SchedAnalyzer

open Foundation.DataFrame

/-- `settings.fig_width_tui`: the width of the terminal up to 100, unless
`--fig-width-tui` asks for another one. Zero does not ask. -/
def figWidthTui (columns : ℕ) (requested : Option ℤ) : ℤ :=
  match requested with
  | some width => if width = 0 then min 100 columns else width
  | none => min 100 columns

/-- `np.rint(x)`: the nearest integer, and the even one of two. -/
def rint (x : ℚ) : ℤ :=
  let rest := x - ⌊x⌋
  if rest < 1 / 2 then ⌊x⌋
  else if 1 / 2 < rest then ⌊x⌋ + 1
  else if ⌊x⌋ % 2 = 0 then ⌊x⌋ else ⌊x⌋ + 1

/-- `x.round(2)`. -/
def round2 (x : ℚ) : ℚ :=
  rint (x * 100) / 100

/-- What is given to `plt.simple_bar`. What is divided by zero is no number. -/
structure BarChart where
  labels : List String
  data : List (Option ℚ)
  deriving DecidableEq, Repr

/-- The charts of a thread, in order. -/
structure StatesCharts where
  timeInState : BarChart
  percentInState : BarChart
  timeOnCpu : BarChart
  percentOnCpu : BarChart
  deriving DecidableEq, Repr

variable {Time : Type}

/-- `df[df.column == key].dur.sum().round(2)`, for each key. -/
def roundedSums (column : StateCol) [DecidableEq (StateCell column)]
    (keys : List (StateCell column)) (df : Frame Time StateCell) : List ℚ :=
  keys.map fun key => round2 (sumPresent
    ((df.filter fun row => row.cell column = some key).map fun row => row.cell .dur))

/-- `[d * settings.fig_width_tui / total for d in data]`. -/
def scaled (figWidth : ℤ) (sums : List ℚ) : List (Option ℚ) :=
  sums.map fun d => if sums.sum = 0 then none else some (d * figWidth / sums.sum)

namespace Summary

variable (summary : Summary Time)

/-- The states of the thread, but for the interruptible sleep. Every row is in a state. -/
def states : List String :=
  (groupKeys StateCol.state summary.rows).erase "S"

/-- `df_tid_running`. -/
def running : Frame Time StateCell :=
  summary.rows.filter fun row => row.cell .state = some "Running"

/-- The CPUs the thread ran on. Every row that runs is on a CPU. -/
def cpus : List ℕ :=
  groupKeys StateCol.cpu summary.running

def stateSums : List ℚ :=
  roundedSums .state summary.states summary.rows

def cpuSums : List ℚ :=
  roundedSums .cpu summary.cpus summary.running

/-- What `states_summary` draws for a thread. -/
def charts (figWidth : ℤ) : StatesCharts :=
  let labels := summary.cpus.map fun cpu => "CPU" ++ toString cpu
  { timeInState := ⟨summary.states, summary.stateSums.map some⟩
    percentInState := ⟨summary.states, scaled figWidth summary.stateSums⟩
    timeOnCpu := ⟨labels, summary.cpuSums.map some⟩
    percentOnCpu := ⟨labels, scaled figWidth summary.cpuSums⟩ }

end Summary

/-! ## Shares -/

/-- The numbers are the shares of the sums in their total, in percent. -/
structure ShowsShares (sums : List ℚ) (data : List (Option ℚ)) : Prop where
  share : data = sums.map fun d => some (d / sums.sum * 100)
  whole : data.reduceOption.sum = 100

/-- The charts in percent show shares, if there is a time to share out. -/
structure ChartsShowShares (columns : ℕ) (requested : Option ℤ) (summary : Summary Time) :
    Prop where
  inState : 0 < summary.stateSums.sum →
    ShowsShares summary.stateSums
      (summary.charts (figWidthTui columns requested)).percentInState.data
  onCpu : 0 < summary.cpuSums.sum →
    ShowsShares summary.cpuSums
      (summary.charts (figWidthTui columns requested)).percentOnCpu.data

/-- A figure of 100 columns: it is asked for, or nothing is and the terminal has them. -/
def HundredWide (columns : ℕ) (requested : Option ℤ) : Prop :=
  requested = some 100 ∨ (requested = none ∨ requested = some 0) ∧ 100 ≤ columns

theorem figWidthTui_eq_hundred_iff {columns : ℕ} {requested : Option ℤ} :
    figWidthTui columns requested = 100 ↔ HundredWide columns requested := by
  cases requested with
  | none =>
      simp [figWidthTui, HundredWide]
  | some width =>
      by_cases hwidth : width = 0
      · simp [figWidthTui, HundredWide, hwidth]
      · simp [figWidthTui, HundredWide, hwidth]

theorem scaled_eq_map {sums : List ℚ} (htotal : 0 < sums.sum) (figWidth : ℤ) :
    scaled figWidth sums = (sums.map fun d => d * figWidth / sums.sum).map some := by
  rw [scaled, List.map_map]
  apply List.map_congr_left
  intro d _
  exact if_neg htotal.ne'

/-- The numbers add up to the width. -/
theorem sum_scaled {sums : List ℚ} (htotal : 0 < sums.sum) (figWidth : ℤ) :
    (scaled figWidth sums).reduceOption.sum = figWidth := by
  rw [scaled_eq_map htotal, List.reduceOption, List.filterMap_map]
  change (List.filterMap some _).sum = _
  rw [List.filterMap_some]
  calc (sums.map fun d => d * figWidth / sums.sum).sum
      = (sums.map fun d => d * (figWidth / sums.sum)).sum := by simp only [mul_div_assoc]
    _ = sums.sum * (figWidth / sums.sum) := by rw [List.sum_map_mul_right, List.map_id']
    _ = figWidth := mul_div_cancel₀ _ htotal.ne'

/-- So they are shares in percent only in a figure of 100 columns. -/
theorem showsShares_scaled_iff {sums : List ℚ} (htotal : 0 < sums.sum) (figWidth : ℤ) :
    ShowsShares sums (scaled figWidth sums) ↔ figWidth = 100 := by
  constructor
  · intro hshares
    have hwhole : (figWidth : ℚ) = 100 := (sum_scaled htotal figWidth).symm.trans hshares.whole
    exact_mod_cast hwhole
  · intro hwidth
    subst hwidth
    constructor
    · rw [scaled_eq_map htotal, List.map_map]
      apply List.map_congr_left
      intro d _
      have hshare : d * (100 : ℤ) / sums.sum = d / sums.sum * 100 := by
        rw [Int.cast_ofNat, mul_div_right_comm]
      exact congrArg some hshare
    · exact sum_scaled htotal 100

/-- Both charts show shares in percent, if and only if the figure has 100 columns or
there is no time to share out. -/
theorem chartsShowShares_iff (columns : ℕ) (requested : Option ℤ) (summary : Summary Time) :
    ChartsShowShares columns requested summary ↔
      (0 < summary.stateSums.sum ∨ 0 < summary.cpuSums.sum → HundredWide columns requested) := by
  constructor
  · intro hshares hpositive
    apply figWidthTui_eq_hundred_iff.mp
    rcases hpositive with hstates | hcpus
    · exact (showsShares_scaled_iff hstates _).mp (hshares.inState hstates)
    · exact (showsShares_scaled_iff hcpus _).mp (hshares.onCpu hcpus)
  · intro hwide
    constructor
    · intro hstates
      have hwidth := figWidthTui_eq_hundred_iff.mpr (hwide (Or.inl hstates))
      exact (showsShares_scaled_iff hstates _).mpr hwidth
    · intro hcpus
      have hwidth := figWidthTui_eq_hundred_iff.mpr (hwide (Or.inr hcpus))
      exact (showsShares_scaled_iff hcpus _).mpr hwidth

/-- A thread that ran for 3ms, waited for 1ms and slept. -/
def threeStates : Summary ℚ where
  tid := 1
  thread := "rampup"
  rows :=
    let row (state : String) (cpu : Option ℕ) (dur : ℚ) : Row ℚ StateCell :=
      ⟨0, fun
        | .cpu => cpu
        | .state => some state
        | .dur => some dur
        | .tid => some 1
        | .name => some "rampup"
        | .parent => none⟩
    [row "R" none 1, row "Running" (some 0) 3, row "S" none 4]

example : (threeStates.charts 100).percentInState = ⟨["R", "Running"], [some 25, some 75]⟩ := by
  decide +kernel

/-- A terminal of 80 columns: the shares of its states add up to 80. -/
theorem chartsShowShares_fails_for_narrow_terminal :
    ¬ ∀ summary : Summary ℚ, ChartsShowShares 80 none summary := by
  intro hshares
  have htotal : 0 < threeStates.stateSums.sum := by decide +kernel
  have hwidth := (showsShares_scaled_iff htotal _).mp ((hshares threeStates).inState htotal)
  exact absurd hwidth (by decide)

end SchedAnalyzer
