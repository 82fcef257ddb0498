import SchedAnalyzer.Post.Cpus

/-! # Frequency clusters

`freq.py` shows one CPU of every cluster. The clusters are found by comparing
each CPU with the leader before it, on a walk over the numbers below the count
of CPUs.
-/

namespace SchedAnalyzer

open Foundation.DataFrame

/-! ## The walk -/

section Walk

variable {Time : Type}

/-- `df_freq[df_freq.cpu == cpu].freq.values`. -/
def freqValues (df : Frame Time (SeriesCell ℕ)) (cpu : ℕ) : List (Option ℚ) :=
  (rowsOfCpu cpu df).map fun row => row.cell .value

/-- `np.array_equal(values, other)`. A missing value is not equal to another. -/
def arrayEqual (values other : List (Option ℚ)) : Bool :=
  values = other && values.all Option.isSome

/-- The loop of `__find_clusters`, with the values of the leader before it. -/
def walkClusters (df : Frame Time (SeriesCell ℕ)) (leader : List (Option ℚ))
    (clusters : List ℕ) : List ℕ → List ℕ
  | [] => clusters
  | cpu :: rest =>
      if arrayEqual leader (freqValues df cpu) then walkClusters df leader clusters rest
      else walkClusters df (freqValues df cpu) (clusters ++ [cpu]) rest

/-- `__find_clusters()`. A list found before is kept. -/
def findClusters (df : Frame Time (SeriesCell ℕ)) (clusters : Option (List ℕ)) : List ℕ :=
  match clusters with
  | some (first :: rest) => first :: rest
  | _ =>
      let nrCpus := (uniqueCpus df).length
      walkClusters df (freqValues df 0) [0] (List.range nrCpus)

variable {df : Frame Time (SeriesCell ℕ)}

theorem freqValues_ne_nil_iff {cpu : ℕ} : freqValues df cpu ≠ [] ↔ HasCpu df cpu := by
  rw [freqValues, ne_eq, List.map_eq_nil_iff]
  exact rowsOfCpu_ne_nil_iff

theorem eq_of_arrayEqual {values other : List (Option ℚ)}
    (hequal : arrayEqual values other = true) : values = other :=
  of_decide_eq_true (Bool.and_eq_true_iff.mp hequal).1

/-- A leader stays one. -/
theorem subset_walkClusters (leader : List (Option ℚ)) (clusters cpus : List ℕ) :
    clusters ⊆ walkClusters df leader clusters cpus := by
  induction cpus generalizing leader clusters with
  | nil => exact List.Subset.refl _
  | cons cpu rest ih =>
      rw [walkClusters]
      split
      next => exact ih leader clusters
      next => exact List.Subset.trans (List.subset_append_left _ _) (ih _ _)

/-- A leader is one from before or a CPU of the walk. -/
theorem mem_walkClusters {leader : List (Option ℚ)} {clusters cpus : List ℕ} {cpu : ℕ}
    (hcpu : cpu ∈ walkClusters df leader clusters cpus) : cpu ∈ clusters ∨ cpu ∈ cpus := by
  induction cpus generalizing leader clusters with
  | nil => exact .inl hcpu
  | cons next rest ih =>
      rw [walkClusters] at hcpu
      split at hcpu
      next => exact (ih hcpu).imp_right (List.mem_cons_of_mem next)
      next =>
        rcases ih hcpu with hbefore | hrest
        · rcases List.mem_append.mp hbefore with hclusters | hnext
          · exact .inl hclusters
          · exact .inr (List.mem_singleton.mp hnext ▸ List.mem_cons_self)
        · exact .inr (List.mem_cons_of_mem next hrest)

/-- Every CPU of the walk has the values of a leader. -/
theorem walkClusters_covers {leader : ℕ} {clusters cpus : List ℕ} (hleader : leader ∈ clusters)
    {cpu : ℕ} (hcpu : cpu ∈ cpus) :
    ∃ other ∈ walkClusters df (freqValues df leader) clusters cpus,
      freqValues df other = freqValues df cpu := by
  induction cpus generalizing leader clusters with
  | nil => cases hcpu
  | cons next rest ih =>
      rw [walkClusters]
      split
      next hequal =>
        rcases List.mem_cons.mp hcpu with rfl | hrest
        · exact ⟨leader, subset_walkClusters _ _ _ hleader, eq_of_arrayEqual hequal⟩
        · exact ih hleader hrest
      next =>
        have hnext : next ∈ clusters ++ [next] := List.mem_concat_self
        rcases List.mem_cons.mp hcpu with rfl | hrest
        · exact ⟨cpu, subset_walkClusters _ _ _ hnext, rfl⟩
        · exact ih hnext hrest

/-- The first CPU without samples after a leader with samples becomes a leader. -/
theorem walkClusters_absent {leader : List (Option ℚ)} (hleader : leader ≠ [])
    {clusters cpus : List ℕ} {cpu : ℕ} (hcpu : cpu ∈ cpus) (habsent : ¬ HasCpu df cpu) :
    ∃ other ∈ walkClusters df leader clusters cpus, ¬ HasCpu df other := by
  induction cpus generalizing leader clusters with
  | nil => cases hcpu
  | cons next rest ih =>
      rw [walkClusters]
      split
      next hequal =>
        rcases List.mem_cons.mp hcpu with rfl | hrest
        · exact absurd (freqValues_ne_nil_iff.mp (eq_of_arrayEqual hequal ▸ hleader)) habsent
        · exact ih hleader hrest
      next =>
        by_cases hnext : HasCpu df next
        · have hrest : cpu ∈ rest :=
            (List.mem_cons.mp hcpu).resolve_left fun heq => habsent (heq ▸ hnext)
          exact ih (freqValues_ne_nil_iff.mpr hnext) hrest
        · exact ⟨next, subset_walkClusters _ _ _ List.mem_concat_self, hnext⟩

end Walk

/-! ## The leaders -/

/-- Every CPU with samples has the values of a leader, and every leader has
samples. -/
structure RepresentsCpus {Time : Type} (df : Frame Time (SeriesCell ℕ)) (clusters : List ℕ) :
    Prop where
  covers : ∀ cpu, HasCpu df cpu → ∃ leader ∈ clusters, freqValues df leader = freqValues df cpu
  sampled : ∀ leader ∈ clusters, HasCpu df leader

/-- A walk that starts at CPU 0 ends with leaders that have samples, if and only if
all CPUs walked over have. -/
theorem findClusters_sampled_iff {Time : Type} {df : Frame Time (SeriesCell ℕ)}
    (hzero : 0 < (uniqueCpus df).length) :
    (∀ leader ∈ findClusters df none, HasCpu df leader) ↔ ContiguousCpus df := by
  rw [contiguousCpus_iff]
  constructor
  · intro hsampled cpu hcpu
    by_contra habsent
    have hfirst : HasCpu df 0 := hsampled 0 (subset_walkClusters _ _ _ List.mem_cons_self)
    obtain ⟨leader, hleader, hnone⟩ := walkClusters_absent (freqValues_ne_nil_iff.mpr hfirst)
      (List.mem_range.mpr hcpu) habsent
    exact hnone (hsampled leader hleader)
  · intro hall leader hleader
    rcases mem_walkClusters hleader with hfirst | hwalked
    · exact hall leader (List.mem_singleton.mp hfirst ▸ hzero)
    · exact hall leader (List.mem_range.mp hwalked)

/-- The leaders represent the CPUs, if and only if these are numbered from zero
without a gap. -/
theorem representsCpus_findClusters_iff {Time : Type} {df : Frame Time (SeriesCell ℕ)}
    (hzero : 0 < (uniqueCpus df).length) :
    RepresentsCpus df (findClusters df none) ↔ ContiguousCpus df := by
  constructor
  · intro hrepresents
    exact (findClusters_sampled_iff hzero).mp hrepresents.sampled
  · intro hcontiguous
    refine ⟨fun cpu hcpu => ?_, (findClusters_sampled_iff hzero).mpr hcontiguous⟩
    have hwalked : cpu ∈ List.range (uniqueCpus df).length :=
      uniqueCpus_eq_range hcontiguous ▸ mem_uniqueCpus_iff.mpr hcpu
    exact walkClusters_covers List.mem_cons_self hwalked

/-! ## The table of the module -/

/-- `df_freq` and `clusters`. -/
structure FreqTables where
  dfFreq : Frame ℤ (SeriesCell ℕ)
  clusters : Option (List ℕ)

/-- `freq.init`, for the rows of its query. -/
def freqInit (rows : Frame ℤ (SeriesCell ℕ)) : FreqTables :=
  if rows.isEmpty then ⟨rows, none⟩
  else
    let dfFreq := rows.map fun row =>
      setValue ((row.cell .value).map fun freq => freq / 1000000) row
    ⟨dfFreq, some (findClusters dfFreq none)⟩

/-- The clusters that are plotted represent the CPUs. -/
def FreqTables.PlotsCpus (tables : FreqTables) : Prop :=
  ∃ clusters, tables.clusters = some clusters ∧ RepresentsCpus tables.dfFreq clusters

theorem hasCpu_map_setValue {Time : Type} (value : Row Time (SeriesCell ℕ) → Option ℚ)
    (df : Frame Time (SeriesCell ℕ)) (cpu : ℕ) :
    HasCpu (df.map fun row => setValue (value row) row) cpu ↔ HasCpu df cpu := by
  simp only [HasCpu, List.mem_map, exists_exists_and_eq_and]
  rfl

/-- The plots show every CPU and no empty one, if and only if the CPUs with
samples are numbered from zero without a gap. -/
theorem freqInit_plotsCpus_iff {rows : Frame ℤ (SeriesCell ℕ)} (hrows : rows ≠ [])
    (hcpus : ∀ row ∈ rows, (row.cell .track).isSome = true) :
    (freqInit rows).PlotsCpus ↔ ContiguousCpus rows := by
  have hempty : rows.isEmpty ≠ true := fun hempty => hrows (List.isEmpty_iff.mp hempty)
  have hcontiguous : ContiguousCpus (freqInit rows).dfFreq ↔ ContiguousCpus rows := by
    rw [freqInit, if_neg hempty, ContiguousCpus, ContiguousCpus]
    simp only [hasCpu_map_setValue]
  rw [← hcontiguous, freqInit, if_neg hempty, FreqTables.PlotsCpus]
  have hzero : 0 < (uniqueCpus (rows.map fun row =>
      setValue ((row.cell .value).map fun freq => freq / 1000000) row)).length := by
    apply uniqueCpus_length_pos (fun hnil => hrows (List.map_eq_nil_iff.mp hnil))
    exact List.forall_mem_map.mpr hcpus
  rw [← representsCpus_findClusters_iff hzero]
  constructor
  · rintro ⟨clusters, hclusters, hrepresents⟩
    cases hclusters
    exact hrepresents
  · exact fun hrepresents => ⟨_, rfl, hrepresents⟩

/-- Samples of two CPUs at one frequency each, one number after the other. -/
def twoFreqSamples (first : ℕ) : Frame ℤ (SeriesCell ℕ) :=
  [⟨0, fun | .track => some first | .value => some 1000000⟩,
    ⟨0, fun | .track => some (first + 1) | .value => some 2000000⟩]

theorem freqInit_plotsCpus_twoFreqSamples : (freqInit (twoFreqSamples 0)).PlotsCpus :=
  (freqInit_plotsCpus_iff (List.cons_ne_nil _ _) (by decide)).mpr
    (contiguousCpus_iff.mpr (by unfold HasCpu; decide))

/-- With CPU 0 offline the first plot is empty and the last CPU has none. -/
theorem freqInit_plotsCpus_fails_without_cpu_zero :
    ¬ ∀ rows : Frame ℤ (SeriesCell ℕ), rows ≠ [] → (∀ row ∈ rows, row.IsComplete) →
      (freqInit rows).PlotsCpus := by
  intro hplots
  obtain ⟨clusters, hclusters, hrepresents⟩ := hplots (twoFreqSamples 1) (List.cons_ne_nil _ _)
    (by decide)
  have hzero : 0 ∈ clusters :=
    Option.some.inj hclusters ▸ subset_walkClusters _ _ _ List.mem_cons_self
  obtain ⟨row, hrow, hcpu⟩ := hrepresents.sampled 0 hzero
  revert row
  decide

end SchedAnalyzer
