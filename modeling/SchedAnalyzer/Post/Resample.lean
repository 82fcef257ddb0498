import SchedAnalyzer.Post.Utils

/-! # Resampling

`convert_ts` with `reindex` samples a list of samples on the grid of the trace.
It gives up when no instant of the window has a complete row, and of samples
with one timestamp it keeps the first.
-/

namespace SchedAnalyzer

open Foundation.DataFrame

variable {Col : Type} [Fintype Col] {Cell : Col → Type}

omit [Fintype Col] in
theorem sampleAt_ts (bounds : Bounds) (samples : Frame ℤ Cell) (ts : ℤ) :
    (sampleAt bounds samples ts).ts = bounds.seconds ts := rfl

omit [Fintype Col] in
/-- The only row of an instant of the grid. -/
theorem eq_sampleAt_of_mem {bounds : Bounds} {samples : Frame ℤ Cell} {ts : ℤ}
    {row : Row ℚ Cell} (hrow : row ∈ sampled bounds samples) (hts : row.ts = bounds.seconds ts) :
    row = sampleAt bounds samples ts := by
  obtain ⟨other, -, rfl⟩ := List.mem_map.mp hrow
  rw [bounds.seconds_injective hts]

/-- Whether an instant of the window has a sample at or before it. -/
def Reached (bounds : Bounds) (samples : Frame ℤ Cell) : Prop :=
  ∃ ts ∈ gridWindow bounds, ∃ sample ∈ samples, sample.ts ≤ ts

omit [Fintype Col] in
theorem firstOfLatest_eq_none_iff {samples : Frame ℤ Cell} {ts : ℤ} :
    firstOfLatest samples ts = none ↔ ∀ sample ∈ samples, ts < sample.ts := by
  rw [← lastUpTo_eq_none_iff]
  cases hlast : lastUpTo samples ts with
  | none => simp [firstOfLatest, hlast]
  | some last =>
      have hsome : (samples.find? fun row => row.ts = last.ts).isSome = true :=
        List.find?_isSome.mpr ⟨last, (mem_of_lastUpTo hlast).1, decide_eq_true rfl⟩
      refine iff_of_false (fun hnone => ?_) (Option.some_ne_none last)
      rw [firstOfLatest, hlast, Option.bind_some] at hnone
      rw [hnone] at hsome
      exact Bool.noConfusion hsome

/-- Some instant of the window is filled from a row without a missing field. -/
def SeesComplete (bounds : Bounds) (rows : Frame ℤ Cell) : Prop :=
  ∃ ts ∈ gridWindow bounds, ∃ row, firstOfLatest rows ts = some row ∧ row.IsComplete

theorem dropna_sampled_isEmpty_iff [Nonempty Col] (bounds : Bounds) (rows : Frame ℤ Cell) :
    (dropna (sampled bounds rows)).isEmpty = true ↔ ¬ SeesComplete bounds rows := by
  rw [List.isEmpty_iff, dropna_eq_nil_iff]
  constructor
  · rintro hnone ⟨ts, hts, row, hfirst, hcomplete⟩
    refine hnone (sampleAt bounds rows ts) (List.mem_map_of_mem hts) ?_
    rw [sampleAt, hfirst]
    exact hcomplete
  · intro hsees row hrow hcomplete
    obtain ⟨ts, hts, rfl⟩ := List.mem_map.mp hrow
    cases hfirst : firstOfLatest rows ts with
    | none =>
        rw [sampleAt, hfirst] at hcomplete
        exact Bool.noConfusion (hcomplete (Classical.arbitrary Col))
    | some first =>
        rw [sampleAt, hfirst] at hcomplete
        exact hsees ⟨ts, hts, first, hfirst, hcomplete⟩

omit [Fintype Col] in
/-- Of samples without missing fields one is seen wherever one is reached. -/
theorem seesComplete_iff_reached {bounds : Bounds} {samples : Frame ℤ Cell}
    (hcomplete : ∀ sample ∈ samples, sample.IsComplete) :
    SeesComplete bounds samples ↔ Reached bounds samples := by
  constructor
  · rintro ⟨ts, hts, first, hfirst, -⟩
    obtain ⟨hmem, hle⟩ := mem_of_firstOfLatest hfirst
    exact ⟨ts, hts, first, hmem, hle⟩
  · rintro ⟨ts, hts, sample, hsample, hle⟩
    cases hfirst : firstOfLatest samples ts with
    | none => exact absurd (firstOfLatest_eq_none_iff.mp hfirst sample hsample) (not_lt.mpr hle)
    | some first => exact ⟨ts, hts, first, hfirst, hcomplete first (mem_of_firstOfLatest hfirst).1⟩

/-- The rows are the instants of the grid in the window, each with the values of
the last sample up to it. -/
structure SamplesSteps (bounds : Bounds) (samples : Frame ℤ Cell) : Prop where
  instants : (convertTs bounds samples true).map Row.ts = (gridWindow bounds).map bounds.seconds
  values : ∀ ts ∈ gridWindow bounds, ∀ row ∈ convertTs bounds samples true,
    row.ts = bounds.seconds ts → row.cell = ((lastUpTo samples ts).getD (.missing ts)).cell

/-- What is sampled, with nothing said about samples of one timestamp. -/
structure SamplesDistinctSteps (bounds : Bounds) (samples : Frame ℤ Cell) : Prop where
  instants : Reached bounds samples →
    (convertTs bounds samples true).map Row.ts = (gridWindow bounds).map bounds.seconds
  nothing : ¬ Reached bounds samples → convertTs bounds samples true = []
  before : ∀ ts ∈ gridWindow bounds, ∀ row ∈ convertTs bounds samples true,
    row.ts = bounds.seconds ts → lastUpTo samples ts = none → ∀ column, row.cell column = none
  values : ∀ ts ∈ gridWindow bounds, ∀ row ∈ convertTs bounds samples true,
    row.ts = bounds.seconds ts → ∀ last, lastUpTo samples ts = some last →
      (∀ sample ∈ samples, sample.ts = last.ts → sample = last) → row.cell = last.cell

/-- Sorted samples without missing fields are sampled as steps where a sample of
the window is reached. -/
theorem samplesDistinctSteps [Nonempty Col] (bounds : Bounds) {samples : Frame ℤ Cell}
    (hsorted : Sorted samples) (hcomplete : ∀ sample ∈ samples, sample.IsComplete) :
    SamplesDistinctSteps bounds samples := by
  have hempty : (dropna (sampled bounds samples)).isEmpty = true ↔ ¬ Reached bounds samples :=
    (dropna_sampled_isEmpty_iff bounds samples).trans (seesComplete_iff_reached hcomplete).not
  have hmem : ∀ row ∈ convertTs bounds samples true, row ∈ sampled bounds samples := by
    intro row hrow
    rw [convertTs_reindex bounds hsorted] at hrow
    split at hrow
    next => exact absurd hrow List.not_mem_nil
    next => exact hrow
  refine ⟨?_, ?_, ?_, ?_⟩
  · intro hreached
    rw [convertTs_reindex bounds hsorted, if_neg fun hnone => hempty.mp hnone hreached, sampled,
      List.map_map]
    rfl
  · intro hreached
    rw [convertTs_reindex bounds hsorted, if_pos (hempty.mpr hreached)]
  · intro ts _ row hrow hts hlast column
    rw [eq_sampleAt_of_mem (hmem row hrow) hts, sampleAt, firstOfLatest, hlast]
    rfl
  · intro ts _ row hrow hts last hlast hunique
    rw [eq_sampleAt_of_mem (hmem row hrow) hts, sampleAt,
      firstOfLatest_eq_of_unique hlast hunique]
    rfl

/-- The rows that are sampled. -/
theorem eq_sampleAt_of_mem_convertTs [Nonempty Col] {bounds : Bounds} {samples : Frame ℤ Cell}
    (hsorted : Sorted samples) {ts : ℤ} {row : Row ℚ Cell} (hrow : row ∈ convertTs bounds samples true)
    (hts : row.ts = bounds.seconds ts) : row = sampleAt bounds samples ts := by
  rw [convertTs_reindex bounds hsorted] at hrow
  split at hrow
  next => exact absurd hrow List.not_mem_nil
  next => exact eq_sampleAt_of_mem hrow hts

/-- Samples that are reached in the window have a row for every instant. -/
theorem map_ts_convertTs_of_reached [Nonempty Col] {bounds : Bounds} {samples : Frame ℤ Cell}
    (hsorted : Sorted samples) (hcomplete : ∀ sample ∈ samples, sample.IsComplete)
    (hreached : Reached bounds samples) :
    (convertTs bounds samples true).map Row.ts = (gridWindow bounds).map bounds.seconds := by
  have hsome : ¬ (dropna (sampled bounds samples)).isEmpty = true := fun hempty =>
    (dropna_sampled_isEmpty_iff bounds samples).mp hempty
      ((seesComplete_iff_reached hcomplete).mpr hreached)
  rw [convertTs_reindex bounds hsorted, if_neg hsome, sampled, List.map_map]
  rfl

/-- One sample of CPU 0. -/
def oneSample (ts : ℤ) : Frame ℤ (SeriesCell ℕ) :=
  [⟨ts, fun | .track => some 0 | .value => some 1⟩]

theorem oneSample_complete (ts : ℤ) : ∀ sample ∈ oneSample ts, sample.IsComplete := by
  intro sample hsample column
  rw [List.mem_singleton.mp hsample]
  cases column <;> rfl

/-- Samples of CPU 0, at instants of the grid and between them. -/
def someSamples : Frame ℤ (SeriesCell ℕ) :=
  [(50000, 1), (100000, 2), (150000, 3), (160000, 4)].map fun sample =>
    ⟨sample.1, fun | .track => some 0 | .value => some sample.2⟩

theorem samplesDistinctSteps_someSamples :
    SamplesDistinctSteps (Bounds.ofTrace 0 300000) someSamples := by
  apply samplesDistinctSteps
  · simp [Sorted, someSamples]
  · intro sample hsample column
    obtain ⟨_, _, rfl⟩ := List.mem_map.mp hsample
    cases column <;> rfl

/-- There is nothing at the first instant, and the last sample up to each later one. -/
example : (convertTs (Bounds.ofTrace 0 300000) someSamples true).map
    (fun row => row.cell .value) = [none, some 2, some 4] := by
  decide +kernel

/-- A sample after the last instant of the grid leaves no row. -/
theorem samplesSteps_fails_for_late_sample :
    ¬ ∀ (bounds : Bounds) (samples : Frame ℤ (SeriesCell ℕ)), Sorted samples →
      (∀ sample ∈ samples, sample.IsComplete) → SamplesSteps bounds samples := by
  intro hsteps
  have hinstants := (hsteps (Bounds.ofTrace 0 100000) (oneSample 50000)
    (List.pairwise_singleton _ _) (oneSample_complete 50000)).instants
  have hlength := congrArg List.length hinstants
  rw [List.length_map, List.length_map] at hlength
  exact absurd hlength (by decide +kernel)

end SchedAnalyzer
