import Mathlib.Data.List.Nodup
import Mathlib.Data.List.Perm.Subperm
import SchedAnalyzer.Post.Utils

/-! # The CPUs of a table

The plots count the CPUs of a table and then walk the numbers below the count.
-/

namespace SchedAnalyzer

open Foundation.DataFrame

/-- `df[df.cpu == cpu]`. -/
def rowsOfCpu {Time : Type} (cpu : ℕ) (df : Frame Time (SeriesCell ℕ)) :
    Frame Time (SeriesCell ℕ) :=
  df.filter fun row => row.cell .track = some cpu

/-- `sorted(df.cpu.unique())`. -/
def uniqueCpus {Time : Type} (df : Frame Time (SeriesCell ℕ)) : List ℕ :=
  groupKeys .track df

variable {Time : Type} {df : Frame Time (SeriesCell ℕ)}

/-- The table has rows of the CPU. -/
def HasCpu (df : Frame Time (SeriesCell ℕ)) (cpu : ℕ) : Prop :=
  ∃ row ∈ df, row.cell .track = some cpu

theorem mem_uniqueCpus_iff {cpu : ℕ} : cpu ∈ uniqueCpus df ↔ HasCpu df cpu :=
  mem_groupKeys_iff

/-- A table with rows has a CPU. -/
theorem uniqueCpus_length_pos (hdf : df ≠ [])
    (hcpus : ∀ row ∈ df, (row.cell .track).isSome = true) : 0 < (uniqueCpus df).length := by
  obtain ⟨row, rest, rfl⟩ := List.exists_cons_of_ne_nil hdf
  obtain ⟨cpu, hcpu⟩ := Option.isSome_iff_exists.mp (hcpus row List.mem_cons_self)
  exact List.length_pos_of_mem (mem_uniqueCpus_iff.mpr ⟨row, List.mem_cons_self, hcpu⟩)

theorem uniqueCpus_nodup (df : Frame Time (SeriesCell ℕ)) : (uniqueCpus df).Nodup :=
  groupKeys_nodup df

theorem rowsOfCpu_ne_nil_iff {cpu : ℕ} : rowsOfCpu cpu df ≠ [] ↔ HasCpu df cpu := by
  rw [rowsOfCpu, ne_eq, List.filter_eq_nil_iff]
  simp [HasCpu]

/-- The CPUs are numbered from zero without a gap. -/
def ContiguousCpus (df : Frame Time (SeriesCell ℕ)) : Prop :=
  ∃ count, ∀ cpu, HasCpu df cpu ↔ cpu < count

theorem uniqueCpus_perm_range {count : ℕ} (hcount : ∀ cpu, HasCpu df cpu ↔ cpu < count) :
    (uniqueCpus df).Perm (List.range count) := by
  refine (List.perm_ext_iff_of_nodup (uniqueCpus_nodup df) List.nodup_range).mpr fun cpu => ?_
  rw [List.mem_range, ← hcount]
  exact mem_uniqueCpus_iff

/-- The numbers below the count are all there only without a gap. -/
theorem contiguousCpus_iff :
    ContiguousCpus df ↔ ∀ cpu < (uniqueCpus df).length, HasCpu df cpu := by
  constructor
  · rintro ⟨count, hcount⟩
    rw [(uniqueCpus_perm_range hcount).length_eq, List.length_range]
    exact fun cpu hcpu => (hcount cpu).mpr hcpu
  · intro hall
    refine ⟨(uniqueCpus df).length, fun cpu => ?_⟩
    have hsubset : List.range (uniqueCpus df).length ⊆ uniqueCpus df := fun cpu hcpu =>
      mem_uniqueCpus_iff.mpr (hall cpu (List.mem_range.mp hcpu))
    have hperm := (List.nodup_range.subperm hsubset).perm_of_length_le
      (List.length_range.symm ▸ le_refl _)
    rw [← mem_uniqueCpus_iff, ← hperm.mem_iff, List.mem_range]

/-- Without a gap the CPUs are the numbers below their count, in order. -/
theorem uniqueCpus_eq_range (hcontiguous : ContiguousCpus df) :
    uniqueCpus df = List.range (uniqueCpus df).length := by
  obtain ⟨count, hcount⟩ := hcontiguous
  have hperm := uniqueCpus_perm_range hcount
  have hsorted : (uniqueCpus df).Pairwise (· ≤ ·) := List.pairwise_insertionSort _ _
  rw [hperm.length_eq, List.length_range]
  exact hperm.eq_of_pairwise' hsorted List.pairwise_le_range

end SchedAnalyzer
