import SchedAnalyzer.Post.Idle

/-! # The chart of idle residencies

The labels of the chart are the CPUs of the table. Its data are computed for the
numbers below the count of CPUs.
-/

namespace SchedAnalyzer

open Foundation.DataFrame

/-- What `idle.plot_residency_tui` gives the chart. -/
structure IdleChart where
  cpus : List ℕ
  states : List ℚ
  data : List (List (Residency (Frame ℚ (SeriesCell ℕ)) ℚ))

/-- `idle.plot_residency_tui`. -/
def idlePlotResidencyTui (df : Frame ℚ (SeriesCell ℕ)) (abs : Bool) : Option IdleChart :=
  if df.isEmpty then none
  else
    let cpus := uniqueCpus df
    let nrCpus := cpus.length
    let states := groupKeys .value df
    some {
      cpus := cpus
      states := states
      data := states.map fun state =>
        (List.range nrCpus).map fun cpu => idleResidency df cpu state abs }

/-- The entry for the state and the CPU at two positions. -/
def IdleChart.entry (chart : IdleChart) (i j : ℕ) :
    Option (Residency (Frame ℚ (SeriesCell ℕ)) ℚ) :=
  chart.data[i]?.bind fun row => row[j]?

/-- The labels are the CPUs with samples, each once, and every entry is the
residency of its state on the CPU of its label, a number. -/
structure IdleChart.Aligned (chart : IdleChart) (df : Frame ℚ (SeriesCell ℕ)) (abs : Bool) :
    Prop where
  once : chart.cpus.Nodup
  every : ∀ cpu, cpu ∈ chart.cpus ↔ HasCpu df cpu
  entries : ∀ i state, chart.states[i]? = some state → ∀ j cpu, chart.cpus[j]? = some cpu →
    ∃ value, idleResidency df cpu state abs = .result value ∧
      chart.entry i j = some (.result value)

variable {df : Frame ℚ (SeriesCell ℕ)}

/-- The residency on a CPU is a number exactly when the CPU has samples. -/
theorem exists_idleResidency_iff (hcomplete : ∀ row ∈ df, row.IsComplete) (cpu : ℕ) (state : ℚ)
    (abs : Bool) :
    (∃ value, idleResidency df cpu state abs = .result value) ↔ HasCpu df cpu := by
  have hkeep : dropna (rowsOfCpu cpu df) = rowsOfCpu cpu df :=
    dropna_eq_self fun row hrow => hcomplete row (List.mem_of_mem_filter hrow)
  rw [← rowsOfCpu_ne_nil_iff, idleResidency, genDfDurationFiltered, hkeep, Bool.or_self,
    ← List.isEmpty_eq_false_iff]
  split
  next hempty =>
    rw [hempty]
    exact iff_of_false (fun hvalue => by cases hvalue.choose_spec) (by decide)
  next hrows => exact iff_of_true ⟨_, rfl⟩ (Bool.eq_false_iff.mpr hrows)

/-- The entries are those of the CPU whose number is the position. -/
theorem entry_idlePlotResidencyTui {abs : Bool} {chart : IdleChart}
    (hchart : idlePlotResidencyTui df abs = some chart) {i j : ℕ} {state : ℚ}
    (hstate : chart.states[i]? = some state) (hj : j < (uniqueCpus df).length) :
    chart.entry i j = some (idleResidency df j state abs) := by
  rw [idlePlotResidencyTui] at hchart
  split at hchart
  next => cases hchart
  next =>
    cases hchart
    rw [IdleChart.entry, List.getElem?_map, hstate]
    change ((List.range _).map _)[j]? = _
    rw [List.getElem?_map, List.getElem?_range hj]
    rfl

theorem labels_idlePlotResidencyTui {abs : Bool} {chart : IdleChart}
    (hchart : idlePlotResidencyTui df abs = some chart) :
    chart.cpus = uniqueCpus df ∧ chart.states = groupKeys .value df := by
  rw [idlePlotResidencyTui] at hchart
  split at hchart
  next => cases hchart
  next =>
    cases hchart
    exact ⟨rfl, rfl⟩

theorem exists_idlePlotResidencyTui (hdf : df ≠ []) (abs : Bool) :
    ∃ chart, idlePlotResidencyTui df abs = some chart := by
  rw [idlePlotResidencyTui, if_neg fun hempty => hdf (List.isEmpty_iff.mp hempty)]
  exact ⟨_, rfl⟩

/-- An aligned chart has a number for every number below the count of CPUs. -/
theorem contiguousCpus_of_aligned (hdf : df ≠ []) (hcomplete : ∀ row ∈ df, row.IsComplete)
    {abs : Bool} {chart : IdleChart} (hchart : idlePlotResidencyTui df abs = some chart)
    (haligned : chart.Aligned df abs) : ContiguousCpus df := by
  obtain ⟨hcpus, hstates⟩ := labels_idlePlotResidencyTui hchart
  refine contiguousCpus_iff.mpr fun cpu hcpu => ?_
  -- Any state shows whether there is a number at the position.
  obtain ⟨row, rest, hrows⟩ := List.exists_cons_of_ne_nil hdf
  have hrow : row ∈ df := hrows ▸ List.mem_cons_self
  obtain ⟨state, hvalue⟩ := Option.isSome_iff_exists.mp (hcomplete row hrow .value)
  have hmem : state ∈ chart.states := hstates ▸ mem_groupKeys_iff.mpr ⟨row, hrow, hvalue⟩
  obtain ⟨i, hstate⟩ := List.mem_iff_getElem?.mp hmem
  have hlabel : chart.cpus[cpu]? = some ((uniqueCpus df)[cpu]) := by
    rw [hcpus]
    exact List.getElem?_eq_getElem hcpu
  obtain ⟨value, -, hentry⟩ := haligned.entries i state hstate cpu _ hlabel
  rw [entry_idlePlotResidencyTui hchart hstate hcpu] at hentry
  exact (exists_idleResidency_iff hcomplete cpu state abs).mp ⟨value, Option.some.inj hentry⟩

/-- Without a gap the position of a CPU is its number. -/
theorem aligned_of_contiguousCpus (hcomplete : ∀ row ∈ df, row.IsComplete) {abs : Bool}
    {chart : IdleChart} (hchart : idlePlotResidencyTui df abs = some chart)
    (hcontiguous : ContiguousCpus df) : chart.Aligned df abs := by
  obtain ⟨hcpus, -⟩ := labels_idlePlotResidencyTui hchart
  refine ⟨hcpus ▸ uniqueCpus_nodup df, fun cpu => hcpus ▸ mem_uniqueCpus_iff, ?_⟩
  intro i state hstate j cpu hlabel
  rw [hcpus, uniqueCpus_eq_range hcontiguous] at hlabel
  obtain ⟨hj, rfl⟩ := List.getElem?_eq_some_iff.mp hlabel
  rw [List.length_range] at hj
  rw [List.getElem_range, entry_idlePlotResidencyTui hchart hstate hj]
  have hcpu : HasCpu df j := contiguousCpus_iff.mp hcontiguous j hj
  obtain ⟨value, hvalue⟩ := (exists_idleResidency_iff hcomplete j state abs).mpr hcpu
  exact ⟨value, hvalue, congrArg some hvalue⟩

/-- The chart is aligned with its labels, if and only if the CPUs are numbered from
zero without a gap. -/
theorem idlePlotResidencyTui_aligned_iff (hdf : df ≠ []) (hcomplete : ∀ row ∈ df, row.IsComplete)
    (abs : Bool) :
    (∃ chart, idlePlotResidencyTui df abs = some chart ∧ chart.Aligned df abs) ↔
      ContiguousCpus df := by
  constructor
  · rintro ⟨chart, hchart, haligned⟩
    exact contiguousCpus_of_aligned hdf hcomplete hchart haligned
  · intro hcontiguous
    obtain ⟨chart, hchart⟩ := exists_idlePlotResidencyTui hdf abs
    exact ⟨chart, hchart, aligned_of_contiguousCpus hcomplete hchart hcontiguous⟩

/-- CPU 0 and another CPU are idle in the same state. -/
def twoIdleCpus (cpu : ℕ) : Frame ℚ (SeriesCell ℕ) :=
  [⟨0, fun | .track => some 0 | .value => some 1⟩,
    ⟨0, fun | .track => some cpu | .value => some 1⟩]

theorem twoIdleCpus_complete (cpu : ℕ) : ∀ row ∈ twoIdleCpus cpu, row.IsComplete := by
  intro row hrow column
  rcases List.mem_cons.mp hrow with rfl | hrow
  · cases column <;> rfl
  · rw [List.mem_singleton.mp hrow]
    cases column <;> rfl

theorem idlePlotResidencyTui_aligned_twoIdleCpus :
    ∃ chart, idlePlotResidencyTui (twoIdleCpus 1) true = some chart ∧
      chart.Aligned (twoIdleCpus 1) true :=
  (idlePlotResidencyTui_aligned_iff (List.cons_ne_nil _ _) (twoIdleCpus_complete 1) true).mpr
    (contiguousCpus_iff.mpr (by unfold HasCpu; decide))

/-- With CPU 1 offline the bar labelled CPU 2 is no number. -/
theorem idlePlotResidencyTui_not_aligned_without_cpu_one :
    ¬ ∀ df : Frame ℚ (SeriesCell ℕ), df ≠ [] → (∀ row ∈ df, row.IsComplete) →
      ∃ chart, idlePlotResidencyTui df true = some chart ∧ chart.Aligned df true := by
  intro haligned
  obtain ⟨chart, hchart, halign⟩ := haligned (twoIdleCpus 2) (List.cons_ne_nil _ _)
    (twoIdleCpus_complete 2)
  obtain ⟨count, hcount⟩ := contiguousCpus_of_aligned (List.cons_ne_nil _ _)
    (twoIdleCpus_complete 2) hchart halign
  have htwo : 2 < count :=
    (hcount 2).mp ⟨_, List.mem_cons_of_mem _ List.mem_cons_self, rfl⟩
  obtain ⟨row, hrow, hcpu⟩ := (hcount 1).mpr (Nat.lt_of_succ_lt htwo)
  revert row
  decide

end SchedAnalyzer
