import Mathlib.Data.List.Chain
import SchedAnalyzer.Foundation.Lists
import SchedAnalyzer.Post.Resample

/-! # The samples of the time a task runs

`multiply_df_tid_running` multiplies a series with the durations of the task's
states, after turning those of the running state into ones. What it finds at an
instant depends on the first of the rows with the latest timestamp, on where the
last row starts, and on whether any row in the window lacks no field.
-/

namespace SchedAnalyzer

open Foundation.DataFrame Foundation.Lists

/-! ## The inputs -/

/-- The states of one thread in the order of the trace. -/
structure StateRows (rows : Frame ℤ StateCell) : Prop where
  nonempty : rows ≠ []
  sorted : Sorted rows
  /-- A row that is not the last ends where the next one starts. -/
  closed : rows.IsChain fun row next => row.cell .dur = some ((next.ts - row.ts : ℤ) : ℚ)
  /-- The last row has a duration or is still open. -/
  last : ∀ row ∈ rows.getLast?, ∃ dur, row.cell .dur = some dur ∧ (dur = -1 ∨ 0 ≤ dur)
  present : ∀ row ∈ rows, ∀ column, column ≠ .cpu → column ≠ .parent →
    (row.cell column).isSome = true

/-- A running row covers an instant, up to its end or while it is still open. -/
def RunsOver (bounds : Bounds) (row : Row ℤ StateCell) (ts : ℤ) : Prop :=
  row.cell .state = some "Running" ∧ row.ts ≤ ts ∧
    ∃ dur, row.cell .dur = some dur ∧
      (dur = -1 ∧ ts < bounds.traceEndTs ∨ (ts : ℚ) < row.ts + dur)

/-- The thread runs at an instant: a running row covers it. -/
def RunningAt (bounds : Bounds) (rows : Frame ℤ StateCell) (ts : ℤ) : Prop :=
  ∃ row ∈ rows, RunsOver bounds row ts

variable {Track : Type}

theorem StateRows.exists_dur {rows : Frame ℤ StateCell} (hrows : StateRows rows)
    {row : Row ℤ StateCell} (hrow : row ∈ rows) : ∃ dur, row.cell .dur = some dur :=
  Option.isSome_iff_exists.mp (hrows.present row hrow .dur (by decide) (by decide))

/-- A series that was resampled in the window. -/
structure Resampled (bounds : Bounds) (df : Frame ℚ (SeriesCell Track)) : Prop where
  instants : df = [] ∨ df.map Row.ts = (gridWindow bounds).map bounds.seconds
  track : ∀ row ∈ df, row.cell .track = none → row.cell .value = none

/-- `convert_ts(df, True)` resamples. -/
theorem convertTs_resampled (bounds : Bounds) {samples : Frame ℤ (SeriesCell Track)}
    (hsorted : Sorted samples)
    (htrack : ∀ sample ∈ samples, sample.cell .track = none → sample.cell .value = none) :
    Resampled bounds (convertTs bounds samples true) := by
  rw [convertTs_reindex bounds hsorted]
  split
  next => exact ⟨Or.inl rfl, fun row hrow => absurd hrow List.not_mem_nil⟩
  next =>
    refine ⟨Or.inr ?_, ?_⟩
    · rw [sampled, List.map_map]
      rfl
    · intro row hrow hnone
      obtain ⟨ts, -, rfl⟩ := List.mem_map.mp hrow
      cases hfirst : firstOfLatest samples ts with
      | none =>
          rw [sampleAt, hfirst]
          rfl
      | some sample =>
          rw [sampleAt, hfirst] at hnone ⊢
          exact htrack sample (mem_of_firstOfLatest hfirst).1 hnone

/-! ## Cells by label -/

/-- The row with the label of an instant, in a table with a row for every one. -/
theorem find?_map_instants {α : Type} {bounds : Bounds} {instants : List ℤ} {row : ℤ → α}
    {label : α → ℚ} (hlabel : ∀ ts, label (row ts) = bounds.seconds ts) {ts : ℤ}
    (hts : ts ∈ instants) :
    (instants.map row).find? (fun other => label other = bounds.seconds ts) = some (row ts) := by
  have hfind : instants.find? (fun other => other = ts) = some ts := find?_eq_self hts
  rw [List.find?_map]
  simp only [Function.comp_def, hlabel, bounds.seconds_injective.eq_iff, hfind, Option.map_some]

section Recode

variable {df : Frame ℚ StateCell} {ts : ℚ}

theorem find?_locDur (condition : Row ℚ StateCell → Bool) (dur : Option ℚ) :
    (locDur condition dur df).find? (fun row => row.ts = ts) =
      (df.find? fun row => row.ts = ts).map
        fun row => if condition row then setDur dur row else row := by
  have hlabel : ∀ row : Row ℚ StateCell,
      (if condition row then setDur dur row else row).ts = row.ts := by
    intro row
    split <;> rfl
  rw [locDur, List.find?_map]
  simp only [Function.comp_def, hlabel]

/-- Recoding leaves the state. -/
theorem state_ite_setDur (condition : Prop) [Decidable condition] (dur : Option ℚ)
    (row : Row ℚ StateCell) :
    (if condition then setDur dur row else row).cell .state = row.cell .state := by
  split <;> rfl

/-- The durations after the last row is chopped off, positive ones are made one
and all but those of the running state are dropped. -/
def recodeDur (lastTs : ℚ) (df : Frame ℚ StateCell) : Frame ℚ StateCell :=
  locDur (fun row => row.cell .state ≠ some "Running") none
    (locDur (fun row => (row.cell .dur).any (0 < ·)) (some 1)
      (locDur (fun row => lastTs < row.ts) none df))

theorem cellAt_recodeDur (lastTs : ℚ) {row : Row ℚ StateCell}
    (hrow : df.find? (fun row => row.ts = ts) = some row) :
    cellAt (recodeDur lastTs df) .dur ts =
      if lastTs < row.ts ∨ row.cell .state ≠ some "Running" then none
      else (row.cell .dur).map fun dur => if 0 < dur then 1 else dur := by
  rw [cellAt, recodeDur, find?_locDur, find?_locDur, find?_locDur, hrow]
  simp only [Option.map_some, Option.bind_some, decide_eq_true_eq, state_ite_setDur]
  by_cases hstate : row.cell .state = some "Running"
  · by_cases hlate : lastTs < row.ts
    · simp [hlate, hstate]
    · cases hdur : row.cell .dur with
      | none => simp [hlate, hstate, hdur]
      | some dur =>
          by_cases hpositive : 0 < dur
          · simp [hlate, hstate, hdur, hpositive]
          · simp [hlate, hstate, hdur, hpositive]
  · simp [hstate]

end Recode

/-! ## The factor of an instant -/

/-- The instant is not after the start of the last row, and the first of the rows
with the latest timestamp up to it is running for `dur`. -/
structure SeenRunning (bounds : Bounds) (rows : Frame ℤ StateCell) (ts : ℤ) (dur : ℚ) : Prop where
  sees : SeesComplete bounds rows
  inTime : ∀ last ∈ rows.getLast?, ts ≤ last.ts
  first : ∃ row, firstOfLatest rows ts = some row ∧ row.cell .state = some "Running" ∧
    row.cell .dur = some dur

/-- The factor of an instant is one where the thread is seen running for some
time, and the duration itself where that is not positive. -/
theorem cellAt_recodeDur_of_sorted {bounds : Bounds} {rows : Frame ℤ StateCell}
    (hsorted : Sorted rows) {last : Row ℤ StateCell} (hlast : rows.getLast? = some last) {ts : ℤ}
    (hts : ts ∈ gridWindow bounds) (factor : ℚ) :
    cellAt (recodeDur (bounds.seconds last.ts) (convertTs bounds rows true)) .dur
        (bounds.seconds ts) = some factor ↔
      ∃ dur, SeenRunning bounds rows ts dur ∧ factor = if 0 < dur then 1 else dur := by
  rw [convertTs_reindex bounds hsorted]
  by_cases hsees : SeesComplete bounds rows
  · rw [if_neg fun hempty => (dropna_sampled_isEmpty_iff bounds rows).mp hempty hsees]
    have hfind : (sampled bounds rows).find? (fun row => row.ts = bounds.seconds ts) =
        some (sampleAt bounds rows ts) :=
      find?_map_instants (sampleAt_ts bounds rows) hts
    rw [cellAt_recodeDur _ hfind]
    simp only [sampleAt_ts, bounds.seconds_lt_seconds]
    constructor
    · intro hfactor
      split at hfactor
      next => exact absurd hfactor.symm (Option.some_ne_none factor)
      next hseen =>
        obtain ⟨hlate, hstate⟩ := not_or.mp hseen
        obtain ⟨dur, hdur, heq⟩ := Option.map_eq_some_iff.mp hfactor
        refine ⟨dur, ⟨hsees, ?_, ?_⟩, heq.symm⟩
        · intro row hrow
          rw [hlast] at hrow
          exact Option.some.inj hrow ▸ not_lt.mp hlate
        · cases hfirst : firstOfLatest rows ts with
          | none =>
              rw [sampleAt, hfirst] at hdur
              exact absurd hdur.symm (Option.some_ne_none dur)
          | some row =>
              rw [sampleAt, hfirst] at hdur hstate
              exact ⟨row, rfl, not_ne_iff.mp hstate, hdur⟩
    · rintro ⟨dur, ⟨-, hinTime, row, hfirst, hstate, hdur⟩, rfl⟩
      have hcell : (sampleAt bounds rows ts).cell = row.cell := by
        rw [sampleAt, hfirst]
        rfl
      rw [hcell, if_neg, hdur, Option.map_some]
      rintro (hlate | hother)
      · exact absurd (hinTime last hlast) (not_le.mpr hlate)
      · exact hother hstate
  · rw [if_pos ((dropna_sampled_isEmpty_iff bounds rows).mpr hsees)]
    constructor
    · intro hfactor
      exact absurd hfactor.symm (Option.some_ne_none factor)
    · rintro ⟨dur, hseen, -⟩
      exact absurd hseen.sees hsees

theorem cellAt_recodeDur_convertTs {bounds : Bounds} {rows : Frame ℤ StateCell}
    (hrows : StateRows rows) {last : Row ℤ StateCell} (hlast : rows.getLast? = some last) {ts : ℤ}
    (hts : ts ∈ gridWindow bounds) (factor : ℚ) :
    cellAt (recodeDur (bounds.seconds last.ts) (convertTs bounds rows true)) .dur
        (bounds.seconds ts) = some factor ↔
      ∃ dur, SeenRunning bounds rows ts dur ∧ factor = if 0 < dur then 1 else dur :=
  cellAt_recodeDur_of_sorted hrows.sorted hlast hts factor

/-! ## The product -/

/-- A series with its values multiplied by label. -/
def timesFactor (factor : ℚ → Option ℚ) (df : Frame ℚ (SeriesCell Track)) :
    Frame ℚ (SeriesCell Track) :=
  df.map fun row => setValue (mulCells (row.cell .value) (factor row.ts)) row

theorem find?_timesFactor (df : Frame ℚ (SeriesCell Track)) (factor : ℚ → Option ℚ) (ts : ℚ) :
    (timesFactor factor df).find? (fun row => row.ts = ts) =
      (df.find? fun row => row.ts = ts).map
        fun row => setValue (mulCells (row.cell .value) (factor row.ts)) row := by
  rw [timesFactor, List.find?_map]
  rfl

theorem cellAt_timesFactor (df : Frame ℚ (SeriesCell Track)) (factor : ℚ → Option ℚ) (ts : ℚ) :
    cellAt (timesFactor factor df) .value ts = mulCells (cellAt df .value ts) (factor ts) := by
  rw [cellAt, cellAt, find?_timesFactor]
  cases hfind : df.find? fun row => row.ts = ts with
  | none => rfl
  | some row =>
      have hts : row.ts = ts := by simpa using List.find?_some hfind
      rw [Option.map_some, Option.bind_some, Option.bind_some, hts]
      rfl

theorem multiplyDfTidRunning_eq (bounds : Bounds) {df : Frame ℚ (SeriesCell Track)}
    (hne : df ≠ []) {rows : Frame ℤ StateCell} {last : Row ℤ StateCell}
    (hlast : rows.getLast? = some last) {product : Frame ℚ (SeriesCell Track)}
    (hproduct : timesFactor (cellAt (recodeDur (bounds.seconds last.ts)
      (convertTs bounds rows true)) .dur) df = product) :
    multiplyDfTidRunning bounds df rows =
      if (dropna product).isEmpty then dropna product else product := by
  subst hproduct
  cases df with
  | nil => exact absurd rfl hne
  | cons first rest =>
      simp only [multiplyDfTidRunning, List.isEmpty_cons, hlast]
      rfl

/-- The value of an instant is multiplied by its factor. -/
theorem cellAt_multiplyDfTidRunning {bounds : Bounds} {df : Frame ℚ (SeriesCell Track)}
    (hdf : Resampled bounds df) {rows : Frame ℤ StateCell} {last : Row ℤ StateCell}
    (hlast : rows.getLast? = some last) (ts : ℚ) :
    cellAt (multiplyDfTidRunning bounds df rows) .value ts =
      mulCells (cellAt df .value ts)
        (cellAt (recodeDur (bounds.seconds last.ts) (convertTs bounds rows true)) .dur ts) := by
  by_cases hne : df = []
  · subst hne
    rfl
  · rw [multiplyDfTidRunning_eq bounds hne hlast rfl, ← cellAt_timesFactor]
    split
    next hempty =>
      -- A product that is there would make its row complete.
      have hnone := dropna_eq_nil_iff.mp (List.isEmpty_iff.mp hempty)
      rw [List.isEmpty_iff.mp hempty]
      cases hfind : (timesFactor (cellAt (recodeDur (bounds.seconds last.ts)
          (convertTs bounds rows true)) .dur) df).find? fun row => row.ts = ts with
      | none => simp [cellAt, hfind]
      | some row =>
          rw [cellAt, cellAt, hfind]
          change none = row.cell .value
          have hrow := List.mem_of_find?_eq_some hfind
          obtain ⟨original, horiginal, hset⟩ := List.mem_map.mp hrow
          cases hvalue : row.cell .value with
          | none => rfl
          | some value =>
              refine absurd ?_ (hnone row hrow)
              have htrack : (original.cell .track).isSome = true := by
                by_contra hmissing
                have hgone := hdf.track original horiginal
                  (Option.not_isSome_iff_eq_none.mp hmissing)
                rw [← hset] at hvalue
                simp [setValue, hgone, mulCells] at hvalue
              intro column
              cases column with
              | track => exact hset ▸ htrack
              | value =>
                  rw [hvalue]
                  rfl
    next => rfl

/-! ## Which series come out right -/

/-- At every instant of the window the result has the value of the series while
the thread runs, and none while it does not. -/
structure KeepsRunningTime (bounds : Bounds) (df : Frame ℚ (SeriesCell Track))
    (rows : Frame ℤ StateCell) : Prop where
  running : ∀ ts ∈ gridWindow bounds, RunningAt bounds rows ts →
    cellAt (multiplyDfTidRunning bounds df rows) .value (bounds.seconds ts) =
      cellAt df .value (bounds.seconds ts)
  notRunning : ∀ ts ∈ gridWindow bounds, ¬ RunningAt bounds rows ts →
    cellAt (multiplyDfTidRunning bounds df rows) .value (bounds.seconds ts) = none

/-- While the thread runs it is seen running for some time, or the value is zero;
while it does not it is not seen running. -/
structure SeesRunningTime (bounds : Bounds) (df : Frame ℚ (SeriesCell Track))
    (rows : Frame ℤ StateCell) : Prop where
  running : ∀ ts ∈ gridWindow bounds, RunningAt bounds rows ts →
    ∀ value, cellAt df .value (bounds.seconds ts) = some value →
      ∃ dur, SeenRunning bounds rows ts dur ∧ (0 < dur ∨ value = 0)
  notRunning : ∀ ts ∈ gridWindow bounds, ¬ RunningAt bounds rows ts →
    ∀ value, cellAt df .value (bounds.seconds ts) = some value →
      ∀ dur, ¬ SeenRunning bounds rows ts dur

/-- A factor keeps a value, if it is one or the value is zero. -/
theorem mul_factor_eq_self_iff {value dur : ℚ} :
    value * (if 0 < dur then 1 else dur) = value ↔ 0 < dur ∨ value = 0 := by
  rw [mul_right_eq_self₀]
  split
  next hpositive => simp [hpositive]
  next hpositive =>
    have hne : dur ≠ 1 := fun hone => hpositive (hone ▸ one_pos)
    simp [hne, hpositive]

section Instant

variable {bounds : Bounds} {df : Frame ℚ (SeriesCell Track)} {rows : Frame ℤ StateCell} {ts : ℤ}

theorem getLast?_of_stateRows (hrows : StateRows rows) : ∃ last, rows.getLast? = some last :=
  ⟨_, List.getLast?_eq_some_getLast hrows.nonempty⟩

/-- The result at an instant with a value. -/
theorem cellAt_multiplyDfTidRunning_eq_some_iff (hdf : Resampled bounds df)
    (hrows : StateRows rows) (hts : ts ∈ gridWindow bounds) {value : ℚ}
    (hvalue : cellAt df .value (bounds.seconds ts) = some value) (kept : ℚ) :
    cellAt (multiplyDfTidRunning bounds df rows) .value (bounds.seconds ts) = some kept ↔
      ∃ dur, SeenRunning bounds rows ts dur ∧ kept = value * if 0 < dur then 1 else dur := by
  obtain ⟨last, hlast⟩ := getLast?_of_stateRows hrows
  rw [cellAt_multiplyDfTidRunning hdf hlast, hvalue, mulCells, Option.bind_some,
    Option.map_eq_some_iff]
  simp only [cellAt_recodeDur_convertTs hrows hlast hts]
  constructor
  · rintro ⟨factor, ⟨dur, hseen, rfl⟩, rfl⟩
    exact ⟨dur, hseen, rfl⟩
  · rintro ⟨dur, hseen, rfl⟩
    exact ⟨_, ⟨dur, hseen, rfl⟩, rfl⟩

/-- Without a value there is no result. -/
theorem cellAt_multiplyDfTidRunning_eq_none (hdf : Resampled bounds df) (hrows : StateRows rows)
    (hvalue : cellAt df .value (bounds.seconds ts) = none) :
    cellAt (multiplyDfTidRunning bounds df rows) .value (bounds.seconds ts) = none := by
  obtain ⟨last, hlast⟩ := getLast?_of_stateRows hrows
  rw [cellAt_multiplyDfTidRunning hdf hlast, hvalue]
  rfl

end Instant

/-- The result is right, if and only if the thread is seen running exactly while
it runs. -/
theorem keepsRunningTime_iff_sees {bounds : Bounds} {df : Frame ℚ (SeriesCell Track)}
    (hdf : Resampled bounds df) {rows : Frame ℤ StateCell} (hrows : StateRows rows) :
    KeepsRunningTime bounds df rows ↔ SeesRunningTime bounds df rows := by
  constructor
  · rintro ⟨hrunning, hnotRunning⟩
    constructor
    · intro ts hts hruns value hvalue
      have hkept := hrunning ts hts hruns
      rw [hvalue, cellAt_multiplyDfTidRunning_eq_some_iff hdf hrows hts hvalue] at hkept
      obtain ⟨dur, hseen, heq⟩ := hkept
      exact ⟨dur, hseen, mul_factor_eq_self_iff.mp heq.symm⟩
    · intro ts hts hruns value hvalue dur hseen
      have hkept := (cellAt_multiplyDfTidRunning_eq_some_iff hdf hrows hts hvalue _).mpr
        ⟨dur, hseen, rfl⟩
      rw [hnotRunning ts hts hruns] at hkept
      exact absurd hkept.symm (Option.some_ne_none _)
  · rintro ⟨hrunning, hnotRunning⟩
    constructor
    · intro ts hts hruns
      cases hvalue : cellAt df .value (bounds.seconds ts) with
      | none => exact cellAt_multiplyDfTidRunning_eq_none hdf hrows hvalue
      | some value =>
          obtain ⟨dur, hseen, hkeep⟩ := hrunning ts hts hruns value hvalue
          exact (cellAt_multiplyDfTidRunning_eq_some_iff hdf hrows hts hvalue value).mpr
            ⟨dur, hseen, (mul_factor_eq_self_iff.mpr hkeep).symm⟩
    · intro ts hts hruns
      cases hvalue : cellAt df .value (bounds.seconds ts) with
      | none => exact cellAt_multiplyDfTidRunning_eq_none hdf hrows hvalue
      | some value =>
          rw [Option.eq_none_iff_forall_ne_some]
          intro kept hkept
          obtain ⟨dur, hseen, -⟩ :=
            (cellAt_multiplyDfTidRunning_eq_some_iff hdf hrows hts hvalue kept).mp hkept
          exact hnotRunning ts hts hruns value hvalue dur hseen

/-! ## Which runs are shown -/

section Shown

variable {bounds : Bounds} {rows : Frame ℤ StateCell} {ts : ℤ}

/-- A row that is not the last one of its table, with the row after it. -/
theorem StateRows.closed_of_split (hrows : StateRows rows) {before after : Frame ℤ StateCell}
    {row next : Row ℤ StateCell} (hsplit : rows = before ++ row :: next :: after) :
    row.cell .dur = some ((next.ts - row.ts : ℤ) : ℚ) := by
  have hclosed := hrows.closed
  rw [hsplit] at hclosed
  exact (List.isChain_append_cons_cons.mp hclosed).2.1

/-- The row that covers an instant is the last one up to it. -/
theorem lastUpTo_of_runsOver (hrows : StateRows rows) {row : Row ℤ StateCell} (hrow : row ∈ rows)
    (hover : RunsOver bounds row ts) : lastUpTo rows ts = some row := by
  obtain ⟨-, hle, dur, hdur, hcovers⟩ := hover
  obtain ⟨before, tail, hsplit⟩ := List.append_of_mem hrow
  cases tail with
  | nil =>
      refine lastUpTo_of_getLast? ?_ hle
      rw [hsplit, List.getLast?_concat]
  | cons next after =>
      have hsorted := hrows.sorted
      rw [hsplit] at hsorted ⊢
      have hlater : row.ts ≤ next.ts :=
        (List.pairwise_cons.mp (List.pairwise_append.mp hsorted).2.1).1 next List.mem_cons_self
      obtain rfl := Option.some.inj (hdur.symm.trans (hrows.closed_of_split hsplit))
      refine lastUpTo_of_between hsorted hle ?_
      rcases hcovers with ⟨hopen, -⟩ | hlt
      · -- Only the last row is open.
        have hnonneg : (0 : ℚ) ≤ ((next.ts - row.ts : ℤ) : ℚ) :=
          Int.cast_nonneg (sub_nonneg.mpr hlater)
        rw [hopen] at hnonneg
        exact absurd hnonneg (by norm_num)
      · push_cast at hlt
        rw [add_sub_cancel] at hlt
        exact_mod_cast hlt

theorem runningAt_iff (hrows : StateRows rows) {latest : Row ℤ StateCell}
    (hlatest : lastUpTo rows ts = some latest) :
    RunningAt bounds rows ts ↔ RunsOver bounds latest ts := by
  constructor
  · rintro ⟨row, hrow, hover⟩
    rw [lastUpTo_of_runsOver hrows hrow hover] at hlatest
    exact Option.some.inj hlatest ▸ hover
  · exact fun hover => ⟨latest, (mem_of_lastUpTo hlatest).1, hover⟩

end Shown

/-- The runs that are shown. The last row covers no instant with a value after its
start; a row without a missing field is seen, or nothing is to be shown; and up to
the start of the last row, of the rows with the latest timestamp the first one is
running for some time (or the value is zero) where the last one covers the
instant, and not running where it does not. -/
structure ShowsRuns (bounds : Bounds) (df : Frame ℚ (SeriesCell Track))
    (rows : Frame ℤ StateCell) : Prop where
  lastRun : ∀ ts ∈ gridWindow bounds, ∀ value,
    cellAt df .value (bounds.seconds ts) = some value →
      ∀ last ∈ rows.getLast?, last.ts < ts → ¬ RunsOver bounds last ts
  complete : SeesComplete bounds rows ∨ ∀ ts ∈ gridWindow bounds, ∀ value,
    cellAt df .value (bounds.seconds ts) = some value → ¬ RunningAt bounds rows ts
  covered : SeesComplete bounds rows → ∀ ts ∈ gridWindow bounds, ∀ value,
    cellAt df .value (bounds.seconds ts) = some value →
      (∀ last ∈ rows.getLast?, ts ≤ last.ts) → ∀ first latest,
        firstOfLatest rows ts = some first → lastUpTo rows ts = some latest →
          RunsOver bounds latest ts → first.cell .state = some "Running" ∧
            (value = 0 ∨ ∃ dur, first.cell .dur = some dur ∧ 0 < dur)
  notCovered : SeesComplete bounds rows → ∀ ts ∈ gridWindow bounds, ∀ value,
    cellAt df .value (bounds.seconds ts) = some value →
      (∀ last ∈ rows.getLast?, ts ≤ last.ts) → ∀ first latest,
        firstOfLatest rows ts = some first → lastUpTo rows ts = some latest →
          ¬ RunsOver bounds latest ts → first.cell .state ≠ some "Running"

/-- The thread is seen running exactly while it runs, if and only if its runs are
shown. -/
theorem seesRunningTime_iff {bounds : Bounds} {df : Frame ℚ (SeriesCell Track)}
    {rows : Frame ℤ StateCell} (hrows : StateRows rows) :
    SeesRunningTime bounds df rows ↔ ShowsRuns bounds df rows := by
  constructor
  · rintro ⟨hrunning, hnotRunning⟩
    refine ⟨?_, ?_, ?_, ?_⟩
    · intro ts hts value hvalue last hlast hafter hover
      have hruns : RunningAt bounds rows ts := ⟨last, List.mem_of_getLast? hlast, hover⟩
      obtain ⟨dur, hseen, -⟩ := hrunning ts hts hruns value hvalue
      exact absurd (hseen.inTime last hlast) (not_le.mpr hafter)
    · by_cases hsees : SeesComplete bounds rows
      · exact .inl hsees
      · right
        intro ts hts value hvalue hruns
        obtain ⟨dur, hseen, -⟩ := hrunning ts hts hruns value hvalue
        exact hsees hseen.sees
    · intro _ ts hts value hvalue _ first latest hfirst hlatest hover
      obtain ⟨dur, hseen, hkeep⟩ :=
        hrunning ts hts ((runningAt_iff hrows hlatest).mpr hover) value hvalue
      obtain ⟨row, hrow, hstate, hdur⟩ := hseen.first
      obtain rfl := Option.some.inj (hfirst.symm.trans hrow)
      exact ⟨hstate, hkeep.symm.imp_right fun hpositive => ⟨dur, hdur, hpositive⟩⟩
    · intro hsees ts hts value hvalue hinTime first latest hfirst hlatest hover hstate
      have hmem := (mem_of_firstOfLatest hfirst).1
      obtain ⟨dur, hdur⟩ := hrows.exists_dur hmem
      exact hnotRunning ts hts ((runningAt_iff hrows hlatest).not.mpr hover) value hvalue dur
        ⟨hsees, hinTime, first, hfirst, hstate, hdur⟩
  · rintro ⟨hlastRun, hcomplete, hcovered, hnotCovered⟩
    constructor
    · intro ts hts hruns value hvalue
      have hsees : SeesComplete bounds rows :=
        hcomplete.resolve_right fun hnone => hnone ts hts value hvalue hruns
      obtain ⟨latest, hmem, hover⟩ := hruns
      have hlatest := lastUpTo_of_runsOver hrows hmem hover
      have hinTime : ∀ last ∈ rows.getLast?, ts ≤ last.ts := by
        intro last hlast
        by_contra hafter
        have hsame := lastUpTo_of_getLast? hlast (not_le.mp hafter).le
        obtain rfl := Option.some.inj (hlatest.symm.trans hsame)
        exact hlastRun ts hts value hvalue latest hlast (not_le.mp hafter) hover
      obtain ⟨first, hfirst⟩ := exists_firstOfLatest hlatest
      obtain ⟨hstate, hkeep⟩ :=
        hcovered hsees ts hts value hvalue hinTime first latest hfirst hlatest hover
      obtain ⟨dur, hdur⟩ := hrows.exists_dur (mem_of_firstOfLatest hfirst).1
      refine ⟨dur, ⟨hsees, hinTime, first, hfirst, hstate, hdur⟩, hkeep.symm.imp_left ?_⟩
      rintro ⟨other, hother, hpositive⟩
      exact Option.some.inj (hother.symm.trans hdur) ▸ hpositive
    · rintro ts hts hruns value hvalue dur ⟨hsees, hinTime, first, hfirst, hstate, -⟩
      obtain ⟨latest, hlatest, -⟩ := Option.bind_eq_some_iff.mp hfirst
      exact hnotCovered hsees ts hts value hvalue hinTime first latest hfirst hlatest
        (fun hover => hruns ((runningAt_iff hrows hlatest).mpr hover)) hstate

/-- The result is right, if and only if the runs of the thread are shown. -/
theorem keepsRunningTime_iff {bounds : Bounds} {df : Frame ℚ (SeriesCell Track)}
    (hdf : Resampled bounds df) {rows : Frame ℤ StateCell} (hrows : StateRows rows) :
    KeepsRunningTime bounds df rows ↔ ShowsRuns bounds df rows :=
  (keepsRunningTime_iff_sees hdf hrows).trans (seesRunningTime_iff hrows)

/-! ## Threads that stop running -/

section Waiting

variable {bounds : Bounds} {rows : Frame ℤ StateCell}

/-- With distinct timestamps a row that is not the last one lasts for some time. -/
theorem exists_later (hrows : StateRows rows) (hdistinct : (rows.map Row.ts).Nodup)
    {row : Row ℤ StateCell} (hrow : row ∈ rows) (hnotLast : rows.getLast? ≠ some row) :
    ∃ next ∈ rows, row.ts < next.ts ∧ row.cell .dur = some ((next.ts - row.ts : ℤ) : ℚ) := by
  obtain ⟨before, tail, hsplit⟩ := List.append_of_mem hrow
  cases tail with
  | nil =>
      rw [hsplit] at hnotLast
      exact absurd List.getLast?_concat hnotLast
  | cons next after =>
      have hsorted := hrows.sorted
      rw [hsplit] at hsorted
      rw [hsplit, List.map_append, List.map_cons, List.map_cons] at hdistinct
      have hle : row.ts ≤ next.ts :=
        (List.pairwise_cons.mp (List.pairwise_append.mp hsorted).2.1).1 next List.mem_cons_self
      have hnotMem := (List.nodup_cons.mp (List.nodup_append.mp hdistinct).2.1).1
      have hne : row.ts ≠ next.ts := fun heq => hnotMem (heq ▸ List.mem_cons_self)
      exact ⟨next, hsplit ▸ by simp, lt_of_le_of_ne hle hne, hrows.closed_of_split hsplit⟩

/-- All runs of a thread are shown, if its timestamps are distinct, its last state
is not the running one, and a row without a missing field is seen. -/
theorem showsRuns_of_waiting {df : Frame ℚ (SeriesCell Track)} (hrows : StateRows rows)
    (hdistinct : (rows.map Row.ts).Nodup)
    (hwaiting : ∀ last ∈ rows.getLast?, last.cell .state ≠ some "Running")
    (hsees : SeesComplete bounds rows) : ShowsRuns bounds df rows := by
  have hlater : ∀ row ∈ rows, row.cell .state = some "Running" →
      ∃ next ∈ rows, row.ts < next.ts ∧ row.cell .dur = some ((next.ts - row.ts : ℤ) : ℚ) :=
    fun row hrow hstate =>
      exists_later hrows hdistinct hrow fun hlast => hwaiting row hlast hstate
  have hsame : ∀ ts first latest, firstOfLatest rows ts = some first →
      lastUpTo rows ts = some latest → first = latest := by
    intro ts first latest hfirst hlatest
    rw [firstOfLatest_eq_of_unique hlatest fun row hrow =>
      List.inj_on_of_nodup_map hdistinct hrow (mem_of_lastUpTo hlatest).1] at hfirst
    exact (Option.some.inj hfirst).symm
  refine ⟨?_, .inl hsees, ?_, ?_⟩
  · exact fun ts _ value _ last hlast _ hover => hwaiting last hlast hover.1
  · intro _ ts _ value _ _ first latest hfirst hlatest hover
    obtain rfl := hsame ts first latest hfirst hlatest
    obtain ⟨next, -, hlt, hdur⟩ := hlater first (mem_of_lastUpTo hlatest).1 hover.1
    exact ⟨hover.1, .inr ⟨_, hdur, Int.cast_pos.mpr (sub_pos.mpr hlt)⟩⟩
  · intro _ ts _ value _ _ first latest hfirst hlatest hover hstate
    obtain rfl := hsame ts first latest hfirst hlatest
    obtain ⟨hmem, hle⟩ := mem_of_lastUpTo hlatest
    obtain ⟨next, hnext, hlt, hdur⟩ := hlater first hmem hstate
    -- The next row is not up to the instant, so this one covers it.
    have hbefore : ts < next.ts := by
      by_contra hreached
      exact absurd (le_of_lastUpTo hrows.sorted hlatest hnext (not_lt.mp hreached))
        (not_le.mpr hlt)
    refine hover ⟨hstate, hle, _, hdur, .inr ?_⟩
    push_cast
    rw [add_sub_cancel]
    exact_mod_cast hbefore

end Waiting

/-- One running row of a thread. -/
def oneRun (ts : ℤ) (dur : ℚ) : Frame ℤ StateCell :=
  [⟨ts, fun
    | .cpu => some 0
    | .state => some "Running"
    | .dur => some dur
    | .tid => some 1
    | .name => some "init"
    | .parent => some "init"⟩]

theorem oneRun_stateRows (ts : ℤ) {dur : ℚ} (hdur : 0 ≤ dur) : StateRows (oneRun ts dur) where
  nonempty := List.cons_ne_nil _ _
  sorted := List.pairwise_singleton _ _
  closed := List.IsChain.singleton _
  last row hrow := by
    obtain rfl := Option.some.inj hrow
    exact ⟨dur, rfl, Or.inr hdur⟩
  present row hrow column _ _ := by
    rw [List.mem_singleton.mp hrow]
    cases column <;> rfl

/-- A series of one value from the start of the trace on. -/
def oneSeries (bounds : Bounds) : Frame ℚ (SeriesCell ℕ) :=
  convertTs bounds (oneSample 0) true

theorem oneSeries_resampled (bounds : Bounds) : Resampled bounds (oneSeries bounds) :=
  convertTs_resampled bounds (List.pairwise_singleton _ _) fun sample hsample hnone => by
    rw [List.mem_singleton.mp hsample] at hnone
    exact absurd hnone (Option.some_ne_none _)

/-- A run of two grid periods, and a wait that goes on. -/
def runAndWait : Frame ℤ StateCell :=
  oneRun 0 200000 ++ [⟨200000, fun
    | .cpu => none
    | .state => some "S"
    | .dur => some (-1)
    | .tid => some 1
    | .name => some "init"
    | .parent => some "init"⟩]

theorem runAndWait_stateRows : StateRows runAndWait where
  nonempty := List.cons_ne_nil _ _
  sorted := by simp [Sorted, runAndWait, oneRun]
  closed := by simp [runAndWait, oneRun]
  last := by simp [runAndWait, oneRun]
  present := by
    intro row hrow column hcpu _
    rcases List.mem_pair.mp hrow with rfl | rfl <;> cases column <;>
      first | rfl | exact absurd rfl hcpu

theorem keepsRunningTime_runAndWait :
    KeepsRunningTime (Bounds.ofTrace 0 300000) (oneSeries (Bounds.ofTrace 0 300000))
      runAndWait := by
  refine (keepsRunningTime_iff (oneSeries_resampled _) runAndWait_stateRows).mpr ?_
  apply showsRuns_of_waiting runAndWait_stateRows
  · simp [runAndWait, oneRun]
  · simp [runAndWait, oneRun]
  · refine ⟨0, mem_gridWindow_iff.mpr ⟨⟨0, rfl⟩, by decide, by decide +kernel⟩, _, rfl, ?_⟩
    intro column
    cases column <;> rfl

/-- A long last run is lost after its start. -/
theorem keepsRunningTime_fails_for_last_run :
    ¬ ∀ (bounds : Bounds) (df : Frame ℚ (SeriesCell ℕ)) (rows : Frame ℤ StateCell),
      Resampled bounds df → StateRows rows → KeepsRunningTime bounds df rows := by
  intro hkeeps
  have hrows : StateRows (oneRun 0 300000) := oneRun_stateRows 0 (by norm_num)
  have hdf := oneSeries_resampled (Bounds.ofTrace 0 300000)
  have hts : 100000 ∈ gridWindow (Bounds.ofTrace 0 300000) :=
    mem_gridWindow_iff.mpr ⟨⟨1, rfl⟩, by decide, by decide +kernel⟩
  have hvalue : cellAt (oneSeries (Bounds.ofTrace 0 300000)) .value
      ((Bounds.ofTrace 0 300000).seconds 100000) = some 1 := by decide +kernel
  have hruns : RunningAt (Bounds.ofTrace 0 300000) (oneRun 0 300000) 100000 :=
    ⟨_, List.mem_singleton_self _, rfl, by norm_num, 300000, rfl, Or.inr (by norm_num)⟩
  have hkept := (hkeeps _ _ _ hdf hrows).running 100000 hts hruns
  rw [hvalue, cellAt_multiplyDfTidRunning_eq_some_iff hdf hrows hts hvalue] at hkept
  obtain ⟨dur, hseen, -⟩ := hkept
  exact absurd (hseen.inTime _ rfl) (by norm_num)

end SchedAnalyzer
