import SchedAnalyzer.Foundation.StepTime
import SchedAnalyzer.Post.Cpus
import SchedAnalyzer.Post.Residency

/-! # Idle residencies

`idle.init` keeps the samples inside the window without sampling them on the
grid, so a residency is made of the times between the samples that are left.
-/

namespace SchedAnalyzer

open Foundation.DataFrame

/-! ## The tables -/

/-- The raw value of an exit from idle. -/
def idleExitValue : ℚ := 4294967295

/-- `df.idle.replace(4294967295, -1)` on one row. -/
def replaceIdleExit {Time : Type} (row : Row Time (SeriesCell ℕ)) : Row Time (SeriesCell ℕ) :=
  setValue ((row.cell .value).map fun idle => if idle = idleExitValue then -1 else idle) row

/-- `idle.init`, for the rows of its query. -/
def idleInit (bounds : Bounds) (rows : Frame ℤ (SeriesCell ℕ)) : Frame ℚ (SeriesCell ℕ) :=
  if rows.isEmpty then [] else (convertTs bounds rows false).map replaceIdleExit

/-- The residency of a state on a CPU: `gen_df_duration_filtered` on its rows. -/
def idleResidency (df : Frame ℚ (SeriesCell ℕ)) (cpu : ℕ) (state : ℚ) (abs : Bool) :
    Residency (Frame ℚ (SeriesCell ℕ)) ℚ :=
  genDfDurationFiltered (rowsOfCpu cpu df) (fun row => row.cell .value = some state) abs

/-! ## The time in a state -/

/-- The samples of a CPU in seconds, with exits told from states. -/
def idleSteps (bounds : Bounds) (samples : Frame ℤ (SeriesCell ℕ)) (cpu : ℕ) :
    Frame ℚ (SeriesCell ℕ) :=
  (rowsOfCpu cpu samples).map fun row => replaceIdleExit (row.relabel (bounds.seconds row.ts))

/-- The time in the window during which a state is the last sample of the CPU. -/
def idleTime (bounds : Bounds) (samples : Frame ℤ (SeriesCell ℕ)) (cpu : ℕ) (state : ℚ) : ℚ :=
  stepTime (fun row => row.cell .value = some state) bounds.tsStart bounds.tsEnd
    (bounds.seconds bounds.traceEndTs) (idleSteps bounds samples cpu)

/-- Times in adjacent windows add up. -/
theorem idleTime_add {bounds : Bounds} {mid : ℚ} (hstart : bounds.tsStart ≤ mid)
    (hend : mid ≤ bounds.tsEnd) (samples : Frame ℤ (SeriesCell ℕ)) (cpu : ℕ) (state : ℚ) :
    idleTime { bounds with tsEnd := mid } samples cpu state +
        idleTime { bounds with tsStart := mid } samples cpu state =
      idleTime bounds samples cpu state :=
  stepTime_add hstart hend _ _ _

/-- The residency of a state in milliseconds is the time the CPU spends in it. -/
def ShowsIdleTime (bounds : Bounds) (samples : Frame ℤ (SeriesCell ℕ)) (cpu : ℕ)
    (state : ℚ) : Prop :=
  idleResidency (idleInit bounds samples) cpu state true =
    .result (1000 * idleTime bounds samples cpu state)

/-- The rows of a CPU after `idle.init` are its steps inside the window. -/
theorem rowsOfCpu_idleInit (bounds : Bounds) {samples : Frame ℤ (SeriesCell ℕ)}
    (hcomplete : ∀ sample ∈ samples, sample.IsComplete) (cpu : ℕ) :
    rowsOfCpu cpu (idleInit bounds samples) =
      window bounds.tsStart bounds.tsEnd (idleSteps bounds samples cpu) := by
  have hinit : idleInit bounds samples =
      (filterTs bounds (samples.map fun row => row.relabel (bounds.seconds row.ts))).map
        replaceIdleExit := by
    cases samples with
    | nil => rfl
    | cons first rest =>
        rw [idleInit, List.isEmpty_cons, convertTs_of_complete bounds hcomplete]
        rfl
  rw [hinit, rowsOfCpu, filterTs, window, idleSteps, rowsOfCpu]
  simp only [List.filter_map, List.filter_filter, List.map_map]
  congr 1
  apply List.filter_congr
  intro row _
  exact Bool.and_comm _ _

theorem idleSteps_sorted (bounds : Bounds) {samples : Frame ℤ (SeriesCell ℕ)} {cpu : ℕ}
    (hsorted : Sorted (rowsOfCpu cpu samples)) : Sorted (idleSteps bounds samples cpu) :=
  List.pairwise_map.mpr (hsorted.imp fun hle => bounds.seconds_le_seconds.mpr hle)

/-- Every sample of a state that lasts inside the window is in it, and so is the
next sample of its CPU; and the CPU has a sample there. -/
structure IdleInside (bounds : Bounds) (samples : Frame ℤ (SeriesCell ℕ)) (cpu : ℕ)
    (state : ℚ) : Prop where
  sampled : ∃ sample ∈ rowsOfCpu cpu samples, bounds.InWindow (bounds.seconds sample.ts)
  inside : StepsInside (fun row => row.cell .value = some state) bounds.tsStart bounds.tsEnd
    (bounds.seconds bounds.traceEndTs) (idleSteps bounds samples cpu)

theorem idleSteps_complete (bounds : Bounds) {samples : Frame ℤ (SeriesCell ℕ)}
    (hcomplete : ∀ sample ∈ samples, sample.IsComplete) {cpu : ℕ} {row : Row ℚ (SeriesCell ℕ)}
    (hrow : row ∈ idleSteps bounds samples cpu) : row.IsComplete := by
  obtain ⟨sample, hsample, rfl⟩ := List.mem_map.mp hrow
  have hcells := hcomplete sample (List.mem_of_mem_filter hsample)
  intro column
  cases column with
  | track => exact hcells .track
  | value =>
      change (Option.map _ (sample.cell .value)).isSome = true
      rw [Option.isSome_map]
      exact hcells .value

/-- The window holds a step exactly when a sample lies in it. -/
theorem window_idleSteps_isEmpty_iff (bounds : Bounds) (samples : Frame ℤ (SeriesCell ℕ))
    (cpu : ℕ) :
    (window bounds.tsStart bounds.tsEnd (idleSteps bounds samples cpu)).isEmpty = true ↔
      ¬ ∃ sample ∈ rowsOfCpu cpu samples, bounds.InWindow (bounds.seconds sample.ts) := by
  rw [List.isEmpty_iff, window, List.filter_eq_nil_iff, idleSteps, List.forall_mem_map]
  simp only [decide_eq_true_eq, not_exists, not_and, Bounds.InWindow]
  rfl

/-- What is shown for a state when the CPU has samples in the window: the times
between them. -/
theorem idleResidency_of_sampled {bounds : Bounds} {samples : Frame ℤ (SeriesCell ℕ)}
    (hcomplete : ∀ sample ∈ samples, sample.IsComplete) {cpu : ℕ}
    (hsampled : ∃ sample ∈ rowsOfCpu cpu samples, bounds.InWindow (bounds.seconds sample.ts))
    (state : ℚ) :
    idleResidency (idleInit bounds samples) cpu state true =
      .result (1000 * durationOf (fun row => row.cell .value = some state)
        (window bounds.tsStart bounds.tsEnd (idleSteps bounds samples cpu))) := by
  have hrows : (window bounds.tsStart bounds.tsEnd (idleSteps bounds samples cpu)).isEmpty ≠ true :=
    fun hempty => (window_idleSteps_isEmpty_iff bounds samples cpu).mp hempty hsampled
  have hkeep : dropna (window bounds.tsStart bounds.tsEnd (idleSteps bounds samples cpu)) =
      window bounds.tsStart bounds.tsEnd (idleSteps bounds samples cpu) :=
    dropna_eq_self fun row hrow =>
      idleSteps_complete bounds hcomplete (List.mem_of_mem_filter hrow)
  rw [idleResidency, rowsOfCpu_idleInit bounds hcomplete, genDfDurationFiltered, hkeep,
    Bool.or_self, if_neg hrows]
  congr 1
  simp only [totalDuration, if_true]
  ring

/-- Without a sample in the window a table without rows is shown. -/
theorem idleResidency_of_not_sampled {bounds : Bounds} {samples : Frame ℤ (SeriesCell ℕ)}
    (hcomplete : ∀ sample ∈ samples, sample.IsComplete) {cpu : ℕ}
    (hsampled : ¬ ∃ sample ∈ rowsOfCpu cpu samples, bounds.InWindow (bounds.seconds sample.ts))
    (state : ℚ) : idleResidency (idleInit bounds samples) cpu state true = .table [] := by
  have hrows := (window_idleSteps_isEmpty_iff bounds samples cpu).mpr hsampled
  rw [idleResidency, rowsOfCpu_idleInit bounds hcomplete, List.isEmpty_iff.mp hrows]
  rfl

/-- The residency of a state is right, if and only if the CPU has a sample in the
window and all time of the state there lies between samples in the window. -/
theorem showsIdleTime_iff (bounds : Bounds) {samples : Frame ℤ (SeriesCell ℕ)}
    (hcomplete : ∀ sample ∈ samples, sample.IsComplete) {cpu : ℕ}
    (hsorted : Sorted (rowsOfCpu cpu samples)) (state : ℚ) :
    ShowsIdleTime bounds samples cpu state ↔ IdleInside bounds samples cpu state := by
  have htime := (durationOf_window (fun row => row.cell .value = some state) bounds.tsStart
    bounds.tsEnd (bounds.seconds bounds.traceEndTs) (idleSteps_sorted bounds hsorted)).2
  rw [ShowsIdleTime]
  by_cases hsampled : ∃ sample ∈ rowsOfCpu cpu samples, bounds.InWindow (bounds.seconds sample.ts)
  · rw [idleResidency_of_sampled hcomplete hsampled, Residency.result.injEq, idleTime,
      mul_right_inj' (by norm_num), htime]
    exact ⟨fun hinside => ⟨hsampled, hinside⟩, fun hinside => hinside.inside⟩
  · rw [idleResidency_of_not_sampled hcomplete hsampled]
    exact iff_of_false (fun hshown => by cases hshown) fun hinside => hsampled hinside.sampled

/-- CPU 0 leaves idle at the start of the trace, and half a second later it
enters a state to stay. -/
def twoIdleSamples : Frame ℤ (SeriesCell ℕ) :=
  [⟨0, fun | .track => some 0 | .value => some 4294967295⟩,
    ⟨500000000, fun | .track => some 0 | .value => some 1⟩]

theorem twoIdleSamples_complete : ∀ sample ∈ twoIdleSamples, sample.IsComplete := by
  decide

theorem twoIdleSamples_sorted : Sorted (rowsOfCpu 0 twoIdleSamples) := by
  unfold Sorted
  decide

theorem showsIdleTime_twoIdleSamples :
    ShowsIdleTime (Bounds.ofTrace 0 1000000000) twoIdleSamples 0 (-1) ↔
      IdleInside (Bounds.ofTrace 0 1000000000) twoIdleSamples 0 (-1) :=
  showsIdleTime_iff _ twoIdleSamples_complete twoIdleSamples_sorted (-1)

/-- The time after the last sample is never shown. -/
theorem showsIdleTime_fails_after_last_sample :
    ¬ ∀ (bounds : Bounds) (samples : Frame ℤ (SeriesCell ℕ)) (cpu : ℕ) (state : ℚ),
      (∀ sample ∈ samples, sample.IsComplete) → Sorted (rowsOfCpu cpu samples) →
        (∀ sample ∈ samples, sample.ts ≤ bounds.traceEndTs) → 0 ≤ bounds.tsStart →
          bounds.tsStart ≤ bounds.tsEnd → bounds.tsEnd ≤ bounds.seconds bounds.traceEndTs →
            ShowsIdleTime bounds samples cpu state := by
  intro hshows
  have hshown := hshows (Bounds.ofTrace 0 1000000000) twoIdleSamples 0 1
    twoIdleSamples_complete twoIdleSamples_sorted (by decide) (by decide +kernel)
    (by decide +kernel) (by decide +kernel)
  rw [ShowsIdleTime, idleResidency_of_sampled twoIdleSamples_complete (by decide +kernel),
    Residency.result.injEq] at hshown
  exact absurd hshown (by decide +kernel)

end SchedAnalyzer
