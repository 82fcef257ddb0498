import Mathlib.Algebra.Order.Field.Rat
import Mathlib.Data.Int.Cast.Lemmas
import Mathlib.Data.Rat.Cast.Order
import Mathlib.Tactic.Linarith
import SchedAnalyzer.Foundation.DataFrame

/-! # The helpers of sched-analyzer-pp

`utils.py` and the window of `settings.py`: sampling a table on the grid of the
trace, keeping the samples of the time a task runs, and residencies. Numbers are
exact.
-/

namespace SchedAnalyzer

open Foundation.DataFrame

/-- `utils.trace_start_ts` and `trace_end_ts`, and the window of `settings`, in
seconds after the start of the trace. -/
structure Bounds where
  traceStartTs : ℤ
  traceEndTs : ℤ
  tsStart : ℚ
  tsEnd : ℚ

namespace Bounds

variable (bounds : Bounds)

/-- Nanoseconds of the trace clock in seconds after the start of the trace. -/
def seconds (ts : ℤ) : ℚ :=
  ((ts - bounds.traceStartTs : ℤ) : ℚ) / 1000000000

/-- `settings.init`: the window before the user sets one. -/
def ofTrace (traceStartTs traceEndTs : ℤ) : Bounds where
  traceStartTs := traceStartTs
  traceEndTs := traceEndTs
  tsStart := 0
  tsEnd := ((traceEndTs - traceStartTs : ℤ) : ℚ) / 1000000000

/-- Inside the window, its two ends included. -/
def InWindow (time : ℚ) : Prop :=
  bounds.tsStart ≤ time ∧ time ≤ bounds.tsEnd

instance (time : ℚ) : Decidable (bounds.InWindow time) :=
  inferInstanceAs (Decidable (_ ∧ _))

theorem seconds_le_seconds {ts other : ℤ} :
    bounds.seconds ts ≤ bounds.seconds other ↔ ts ≤ other := by
  rw [seconds, seconds, div_le_div_iff_of_pos_right (by norm_num), Int.cast_le]
  omega

theorem seconds_lt_seconds {ts other : ℤ} :
    bounds.seconds ts < bounds.seconds other ↔ ts < other := by
  rw [← not_le, seconds_le_seconds, not_le]

theorem seconds_injective : Function.Injective bounds.seconds := fun _ _ heq =>
  le_antisymm (bounds.seconds_le_seconds.mp heq.le) (bounds.seconds_le_seconds.mp heq.ge)

end Bounds

/-! ## Sampling -/

/-- `np.arange(start, stop, step)`. -/
def arange (start stop : ℤ) (step : ℕ) : List ℤ :=
  (List.range ((stop - start + step - 1) / step).toNat).map
    fun k : ℕ => start + k * step

theorem mem_arange_iff {start stop : ℤ} {step : ℕ} (hstep : 0 < step) {ts : ℤ} :
    ts ∈ arange start stop step ↔ ∃ k : ℕ, ts = start + k * step ∧ ts < stop := by
  have hpos : (0 : ℤ) < step := by exact_mod_cast hstep
  have hbelow : ∀ k : ℕ,
      k < ((stop - start + step - 1) / step).toNat ↔ start + k * step < stop := by
    intro k
    rw [Int.lt_toNat, ← Int.add_one_le_iff, Int.le_ediv_iff_mul_le hpos, add_mul, one_mul]
    omega
  simp only [arange, List.mem_map, List.mem_range, hbelow]
  constructor
  · rintro ⟨k, hlt, rfl⟩
    exact ⟨k, rfl, hlt⟩
  · rintro ⟨k, rfl, hlt⟩
    exact ⟨k, hlt, rfl⟩

/-- `settings.filter_ts(df)`. -/
def filterTs {Col : Type} {Cell : Col → Type} (bounds : Bounds) (df : Frame ℚ Cell) :
    Frame ℚ Cell :=
  df.filter fun row => bounds.InWindow row.ts

/-- The grid of 100us of the trace. -/
def grid (bounds : Bounds) : List ℤ :=
  arange bounds.traceStartTs bounds.traceEndTs (100 * 1000)

/-- The instants of the grid inside the window. -/
def gridWindow (bounds : Bounds) : List ℤ :=
  (grid bounds).filter fun ts => bounds.InWindow (bounds.seconds ts)

theorem mem_gridWindow_iff {bounds : Bounds} {ts : ℤ} :
    ts ∈ gridWindow bounds ↔ (∃ k : ℕ, ts = bounds.traceStartTs + k * 100000) ∧
      ts < bounds.traceEndTs ∧ bounds.InWindow (bounds.seconds ts) := by
  rw [gridWindow, List.mem_filter, grid, mem_arange_iff (by decide), decide_eq_true_eq,
    exists_and_right, and_assoc]
  rfl

section Convert

variable {Col : Type} [Fintype Col] {Cell : Col → Type}

/-- `convert_ts(df, reindex)`. The column `_ts` repeats the label. -/
def convertTs (bounds : Bounds) (df : Frame ℤ Cell) (reindex : Bool) : Frame ℚ Cell :=
  if df.isEmpty then []
  else
    let df := if reindex then reindexFfill (grid bounds) (dropDuplicated df) else df
    let df := df.map fun row => row.relabel (bounds.seconds row.ts)
    let df := filterTs bounds df
    if (dropna df).isEmpty then dropna df else df

/-- The row of a grid instant. -/
def sampleAt (bounds : Bounds) (df : Frame ℤ Cell) (ts : ℤ) : Row ℚ Cell :=
  ((firstOfLatest df ts).getD (.missing ts)).relabel (bounds.seconds ts)

/-- The rows of the grid instants in the window. -/
def sampled (bounds : Bounds) (df : Frame ℤ Cell) : Frame ℚ Cell :=
  (gridWindow bounds).map (sampleAt bounds df)

/-- Resampling gives a row for every grid instant in the window, unless none of
them is complete. -/
theorem convertTs_reindex [Nonempty Col] (bounds : Bounds) {df : Frame ℤ Cell}
    (hsorted : Sorted df) :
    convertTs bounds df true =
      if (dropna (sampled bounds df)).isEmpty then [] else sampled bounds df := by
  cases df with
  | nil =>
      have hnone : dropna (sampled bounds ([] : Frame ℤ Cell)) = [] := by
        refine dropna_eq_nil_iff.mpr fun row hrow hcomplete => ?_
        obtain ⟨ts, -, rfl⟩ := List.mem_map.mp hrow
        have hsome := hcomplete (Classical.arbitrary Col)
        exact Bool.noConfusion hsome
      rw [convertTs, hnone]
      rfl
  | cons first rest =>
      have hrows : filterTs bounds
          ((reindexFfill (grid bounds) (dropDuplicated (first :: rest))).map
            fun row => row.relabel (bounds.seconds row.ts)) = sampled bounds (first :: rest) := by
        rw [filterTs, reindexFfill, List.map_map, List.filter_map, sampled, gridWindow]
        refine List.map_congr_left fun ts _ => ?_
        simp only [Function.comp, lastUpTo_dropDuplicated hsorted]
        rfl
      simp only [convertTs, List.isEmpty_cons, Bool.false_eq_true, if_false, if_true, hrows]
      split
      next hempty => exact List.isEmpty_iff.mp hempty
      next => rfl

/-- Without resampling the samples in the window are kept. -/
theorem convertTs_of_complete (bounds : Bounds) {df : Frame ℤ Cell}
    (hcomplete : ∀ row ∈ df, row.IsComplete) :
    convertTs bounds df false =
      filterTs bounds (df.map fun row => row.relabel (bounds.seconds row.ts)) := by
  cases df with
  | nil => rfl
  | cons first rest =>
      have hkeep : dropna (filterTs bounds ((first :: rest).map
          fun row => row.relabel (bounds.seconds row.ts))) =
            filterTs bounds ((first :: rest).map
              fun row => row.relabel (bounds.seconds row.ts)) := by
        refine dropna_eq_self fun row hrow => ?_
        obtain ⟨sample, hsample, rfl⟩ := List.mem_map.mp (List.mem_filter.mp hrow).1
        exact hcomplete sample hsample
      simp only [convertTs, List.isEmpty_cons, Bool.false_eq_true, if_false, hkeep, ite_self]

end Convert

/-! ## The time a task runs -/

/-- The columns of a table of counters: the track they are on, a CPU or a
counter's name, and the value. -/
inductive SeriesCol
  | track
  | value
  deriving DecidableEq, Nonempty

instance : Fintype SeriesCol :=
  ⟨{.track, .value}, fun column => by cases column <;> decide⟩

/-- The type of a column. -/
abbrev SeriesCell (Track : Type) : SeriesCol → Type
  | .track => Track
  | .value => ℚ

/-- The columns of `df_states`. -/
inductive StateCol
  | cpu
  | state
  | dur
  | tid
  | name
  | parent
  deriving DecidableEq, Nonempty

instance : Fintype StateCol :=
  ⟨{.cpu, .state, .dur, .tid, .name, .parent}, fun column => by cases column <;> decide⟩

/-- The type of a column. -/
abbrev StateCell : StateCol → Type
  | .cpu => ℕ
  | .state => String
  | .dur => ℚ
  | .tid => ℕ
  | .name => String
  | .parent => String

section Running

variable {Track Time : Type}

/-- `df.loc[...,'dur'] = dur` on one row. -/
def setDur (dur : Option ℚ) (row : Row Time StateCell) : Row Time StateCell where
  ts := row.ts
  cell
    | .dur => dur
    | .cpu => row.cell .cpu
    | .state => row.cell .state
    | .tid => row.cell .tid
    | .name => row.cell .name
    | .parent => row.cell .parent

@[simp] theorem setDur_dur (dur : Option ℚ) (row : Row Time StateCell) :
    (setDur dur row).cell .dur = dur := rfl

/-- The value of a row replaced. -/
def setValue (value : Option ℚ) (row : Row Time (SeriesCell Track)) :
    Row Time (SeriesCell Track) where
  ts := row.ts
  cell
    | .track => row.cell .track
    | .value => value

/-- `df.loc[condition, 'dur'] = dur`. -/
def locDur (condition : Row Time StateCell → Bool) (dur : Option ℚ) (df : Frame Time StateCell) :
    Frame Time StateCell :=
  df.map fun row => if condition row then setDur dur row else row

/-- The cell of the row with a label. -/
def cellAt {Col : Type} {Cell : Col → Type} [DecidableEq Time] (df : Frame Time Cell)
    (column : Col) (ts : Time) : Option (Cell column) :=
  (df.find? fun row => row.ts = ts).bind fun row => row.cell column

/-- The product of two cells, if none is missing. -/
def mulCells (value factor : Option ℚ) : Option ℚ :=
  value.bind fun value => factor.map fun factor => value * factor

/-- `multiply_df_tid_running(df, col, df_tid)`, where `col` is the value. The
multiplication goes by label. -/
def multiplyDfTidRunning (bounds : Bounds) (df : Frame ℚ (SeriesCell Track))
    (dfTid : Frame ℤ StateCell) : Frame ℚ (SeriesCell Track) :=
  match df.isEmpty, dfTid.getLast? with
  | false, some last =>
      let lastTs := bounds.seconds last.ts
      let dfTid := convertTs bounds dfTid true
      let dfTid := locDur (fun row => lastTs < row.ts) none dfTid
      let dfTid := locDur (fun row => (row.cell .dur).any (0 < ·)) (some 1) dfTid
      let dfTid := locDur (fun row => row.cell .state ≠ some "Running") none dfTid
      let df := df.map fun row =>
        setValue (mulCells (row.cell .value) (cellAt dfTid .dur row.ts)) row
      if (dropna df).isEmpty then dropna df else df
  | _, _ => df

end Running

/-! ## Residencies -/

/-- What the residency functions return: the table they were given, or a result. -/
inductive Residency (Table Result : Type)
  | table (df : Table)
  | result (value : Result)

section Residencies

variable {Col : Type} [Fintype Col] {Cell : Col → Type}

/-- The total that durations are divided by. -/
def totalDuration (df : Frame ℚ Cell) (abs : Bool) : ℚ :=
  let total := sumPresent (((withDuration df).filter
    fun timed => decide timed.1.IsComplete && timed.2.isSome).map Prod.snd)
  let total := if total = 0 then 1 else total
  if abs then 1 / 10 else total

/-- `gen_df_duration_groupby(df, col, abs)`. -/
def genDfDurationGroupby (df : Frame ℚ Cell) (col : Col) [LinearOrder (Cell col)] (abs : Bool) :
    Residency (Frame ℚ Cell) (List (Cell col × ℚ)) :=
  if df.isEmpty || (dropna df).isEmpty then .table df
  else
    .result ((groupbyDuration col df).map fun group =>
      (group.1, group.2 * 100 / totalDuration df abs))

/-- `gen_df_duration_filtered(df, filter, abs)`. -/
def genDfDurationFiltered (df : Frame ℚ Cell) (filter : Row ℚ Cell → Bool) (abs : Bool) :
    Residency (Frame ℚ Cell) ℚ :=
  if df.isEmpty || (dropna df).isEmpty then .table df
  else .result (durationOf filter df * 100 / totalDuration df abs)

end Residencies

end SchedAnalyzer
