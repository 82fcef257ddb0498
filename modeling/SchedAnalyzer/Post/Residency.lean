import Mathlib.Algebra.BigOperators.Ring.List
import Mathlib.Tactic.FieldSimp
import Mathlib.Tactic.Ring
import SchedAnalyzer.Foundation.Lists
import SchedAnalyzer.Post.Utils

/-! # Residencies

The bar charts take the residency of a value from a table filtered by it, the
images from the table grouped by the column. Both divide by the same total.
-/

namespace SchedAnalyzer

open Foundation.DataFrame Foundation.Lists

variable {Col : Type} [Fintype Col] {Cell : Col → Type}

section Spec

variable {col : Col} [DecidableEq (Cell col)]

/-- The time of the rows with a value up to their next ones. -/
def timeAt (col : Col) [DecidableEq (Cell col)] (value : Cell col) (df : Frame ℚ Cell) : ℚ :=
  (((df.zip df.tail).filter fun pair => pair.1.cell col = some value).map
    fun pair => pair.2.ts - pair.1.ts).sum

/-- The time of the rows with any value. -/
def timeOf (col : Col) (df : Frame ℚ Cell) : ℚ :=
  (((df.zip df.tail).filter fun pair => (pair.1.cell col).isSome).map
    fun pair => pair.2.ts - pair.1.ts).sum

omit [Fintype Col] in
theorem timeAt_eq (value : Cell col) (df : Frame ℚ Cell) :
    timeAt col value df = durationOf (fun row => row.cell col = some value) df :=
  (durationOf_eq_sum_zip (fun row => row.cell col = some value) df).symm

omit [Fintype Col] in
theorem timeOf_eq (col : Col) (df : Frame ℚ Cell) :
    timeOf col df = durationOf (fun row => (row.cell col).isSome) df :=
  (durationOf_eq_sum_zip (fun row => (row.cell col).isSome) df).symm

/-- A column is missing wherever another one is. -/
def CoversMissing (col : Col) (df : Frame ℚ Cell) : Prop :=
  ∀ row ∈ df, ∀ other, row.cell other = none → row.cell col = none

omit [Fintype Col] [DecidableEq (Cell col)] in
theorem CoversMissing.isComplete_iff {df : Frame ℚ Cell} (hcovers : CoversMissing col df)
    {row : Row ℚ Cell} (hrow : row ∈ df) : row.IsComplete ↔ (row.cell col).isSome = true := by
  constructor
  · exact fun hcomplete => hcomplete col
  · intro hsome other
    by_contra hnone
    have hmissing := hcovers row hrow other (Option.not_isSome_iff_eq_none.mp hnone)
    rw [hmissing] at hsome
    exact Bool.noConfusion hsome

omit [DecidableEq (Cell col)] in
/-- A table without a value is returned as it is, any other has a result. -/
theorem dropna_isEmpty_iff {df : Frame ℚ Cell} (hcovers : CoversMissing col df) :
    (df.isEmpty || (dropna df).isEmpty) = true ↔ ∀ row ∈ df, row.cell col = none := by
  rw [Bool.or_eq_true, List.isEmpty_iff, List.isEmpty_iff, dropna_eq_nil_iff]
  constructor
  · rintro (rfl | hnone) row hrow
    · exact absurd hrow List.not_mem_nil
    · rw [← Option.not_isSome_iff_eq_none]
      exact mt (hcovers.isComplete_iff hrow).mpr (hnone row hrow)
  · intro hnone
    refine Or.inr fun row hrow hcomplete => ?_
    exact Option.not_isSome_iff_eq_none.mpr (hnone row hrow) (hcomplete col)

omit [DecidableEq (Cell col)] in
/-- The total is the time of the rows with a value. -/
theorem totalDuration_eq {df : Frame ℚ Cell} (hcovers : CoversMissing col df) :
    totalDuration df false = if timeOf col df = 0 then 1 else timeOf col df := by
  have hsame : durationOf (fun row => decide row.IsComplete) df =
      durationOf (fun row => (row.cell col).isSome) df := by
    refine durationOf_congr fun row hrow => ?_
    rw [Bool.eq_iff_iff, decide_eq_true_eq]
    exact hcovers.isComplete_iff hrow
  simp only [totalDuration, sumPresent_filter_isSome (fun row => decide row.IsComplete), hsame,
    timeOf_eq, Bool.false_eq_true, if_false]

end Spec

variable {col : Col} [LinearOrder (Cell col)]

/-- The group of a value. -/
def Residency.at {Table Key : Type} [DecidableEq Key] (residency : Residency Table (List (Key × ℚ)))
    (key : Key) : Option ℚ :=
  match residency with
  | .table _ => none
  | .result groups => (groups.find? fun group => group.1 = key).map Prod.snd

/-- The residency of every value, grouped and filtered. -/
structure ResidenciesAgree (df : Frame ℚ Cell) (col : Col) [LinearOrder (Cell col)] : Prop where
  /-- The values that have a group are those of the column. -/
  groups : ∀ value abs, ((genDfDurationGroupby df col abs).at value).isSome = true ↔
    ∃ row ∈ df, row.cell col = some value
  absolute : ∀ value, (∃ row ∈ df, row.cell col = some value) →
    (genDfDurationGroupby df col true).at value = some (1000 * timeAt col value df)
  percentage : 0 < timeOf col df → ∀ value, (∃ row ∈ df, row.cell col = some value) →
    (genDfDurationGroupby df col false).at value =
      some (100 * (timeAt col value df / timeOf col df))
  hundred : 0 < timeOf col df → ∀ groups, genDfDurationGroupby df col false = .result groups →
    (groups.map Prod.snd).sum = 100
  zero : ¬ 0 < timeOf col df → ∀ groups, genDfDurationGroupby df col false = .result groups →
    ∀ group ∈ groups, group.2 = 0
  filtered : ∀ value abs, (∃ row ∈ df, row.cell col = some value) →
    ∃ residency, (genDfDurationGroupby df col abs).at value = some residency ∧
      genDfDurationFiltered df (fun row => row.cell col = some value) abs = .result residency

omit [Fintype Col] in
/-- The group of a value that occurs holds the value's time. -/
theorem find?_map_groupbyDuration {df : Frame ℚ Cell} {value : Cell col}
    (hvalue : ∃ row ∈ df, row.cell col = some value) (scale : ℚ → ℚ) :
    (((groupbyDuration col df).map fun group => (group.1, scale group.2)).find?
      fun group => group.1 = value).map Prod.snd = some (scale (timeAt col value df)) := by
  have hkey : (groupKeys col df).find? (fun key => key = value) = some value :=
    find?_eq_self (mem_groupKeys_iff.mpr hvalue)
  rw [groupbyDuration, List.map_map, List.find?_map]
  simp only [Function.comp_def, hkey, Option.map_some, timeAt_eq]

omit [Fintype Col] in
/-- No group is for a value that does not occur. -/
theorem find?_map_groupbyDuration_isSome {df : Frame ℚ Cell} {value : Cell col}
    (scale : ℚ → ℚ)
    (hsome : (((groupbyDuration col df).map fun group => (group.1, scale group.2)).find?
      fun group => group.1 = value).isSome = true) :
    ∃ row ∈ df, row.cell col = some value := by
  obtain ⟨group, hgroup, heq⟩ := List.find?_isSome.mp hsome
  obtain ⟨timed, htimed, rfl⟩ := List.mem_map.mp hgroup
  obtain ⟨key, hkey, rfl⟩ := List.mem_map.mp htimed
  have hvalue : key = value := by simpa using heq
  exact mem_groupKeys_iff.mp (hvalue ▸ hkey)

omit [LinearOrder (Cell col)] in
theorem not_dropna_isEmpty {df : Frame ℚ Cell} (hcovers : CoversMissing col df)
    {value : Cell col} (hvalue : ∃ row ∈ df, row.cell col = some value) :
    ¬ (df.isEmpty || (dropna df).isEmpty) = true := by
  intro hempty
  obtain ⟨row, hrow, hcell⟩ := hvalue
  rw [(dropna_isEmpty_iff hcovers).mp hempty row hrow] at hcell
  exact absurd hcell.symm (Option.some_ne_none value)

theorem at_genDfDurationGroupby {df : Frame ℚ Cell} (hcovers : CoversMissing col df)
    {value : Cell col} (hvalue : ∃ row ∈ df, row.cell col = some value) (abs : Bool) :
    (genDfDurationGroupby df col abs).at value =
      some (timeAt col value df * 100 / totalDuration df abs) := by
  rw [genDfDurationGroupby, if_neg (not_dropna_isEmpty hcovers hvalue)]
  exact find?_map_groupbyDuration hvalue fun time => time * 100 / totalDuration df abs

/-- The groups of the percentages. -/
theorem groups_genDfDurationGroupby {df : Frame ℚ Cell} {abs : Bool}
    {groups : List (Cell col × ℚ)} (hgroups : genDfDurationGroupby df col abs = .result groups) :
    groups = (groupKeys col df).map fun key =>
      (key, timeAt col key df * 100 / totalDuration df abs) := by
  rw [genDfDurationGroupby] at hgroups
  split at hgroups
  next => cases hgroups
  next =>
    rw [← Residency.result.inj hgroups, groupbyDuration, List.map_map]
    simp only [Function.comp_def, timeAt_eq]

omit [Fintype Col] in
/-- The values of a column share out its time. -/
theorem sum_timeAt_keys (df : Frame ℚ Cell) :
    ((groupKeys col df).map fun key => timeAt col key df).sum = timeOf col df := by
  simp only [timeAt_eq, timeOf_eq]
  exact sum_durationOf_keys (groupKeys_nodup df) fun row hrow key hkey =>
    mem_groupKeys_iff.mpr ⟨row, hrow, hkey⟩

/-- Grouped and filtered residencies are those of the values, and the
percentages add up. -/
theorem residenciesAgree {df : Frame ℚ Cell} (hsorted : Sorted df)
    (hcovers : CoversMissing col df) : ResidenciesAgree df col := by
  refine ⟨?_, ?_, ?_, ?_, ?_, ?_⟩
  · intro value abs
    constructor
    · intro hsome
      rw [genDfDurationGroupby] at hsome
      split at hsome
      next => exact Bool.noConfusion hsome
      next =>
        rw [Residency.at, Option.isSome_map] at hsome
        exact find?_map_groupbyDuration_isSome (fun time => time * 100 / totalDuration df abs) hsome
    · intro hvalue
      rw [at_genDfDurationGroupby hcovers hvalue]
      rfl
  · intro value hvalue
    rw [at_genDfDurationGroupby hcovers hvalue]
    congr 1
    simp only [totalDuration, if_true]
    ring
  · intro hpositive value hvalue
    rw [at_genDfDurationGroupby hcovers hvalue, totalDuration_eq hcovers, if_neg hpositive.ne']
    congr 1
    ring
  · intro hpositive groups hgroups
    rw [groups_genDfDurationGroupby hgroups, List.map_map, totalDuration_eq hcovers,
      if_neg hpositive.ne']
    have hscale : (Prod.snd ∘ fun key => (key, timeAt col key df * 100 / timeOf col df)) =
        fun key => timeAt col key df * (100 / timeOf col df) := by
      funext key
      exact mul_div_assoc _ _ _
    rw [hscale, List.sum_map_mul_right, sum_timeAt_keys]
    field_simp
  · intro hzero groups hgroups group hgroup
    rw [groups_genDfDurationGroupby hgroups] at hgroup
    obtain ⟨key, -, rfl⟩ := List.mem_map.mp hgroup
    -- A group takes no more than the whole, which is nothing.
    have hle : timeAt col key df ≤ timeOf col df := by
      rw [timeAt_eq, timeOf_eq]
      exact durationOf_mono hsorted fun row hrow => by
        rw [decide_eq_true_eq] at hrow
        rw [hrow]
        rfl
    have hnonneg : 0 ≤ timeAt col key df := by
      rw [timeAt_eq]
      exact durationOf_nonneg hsorted
    have hnone : timeAt col key df = 0 := le_antisymm (hle.trans (not_lt.mp hzero)) hnonneg
    simp only [hnone, zero_mul, zero_div]
  · intro value abs hvalue
    refine ⟨_, at_genDfDurationGroupby hcovers hvalue abs, ?_⟩
    rw [genDfDurationFiltered, if_neg (not_dropna_isEmpty hcovers hvalue), timeAt_eq]

/-- A series with a gap, and the same value on both sides of it. -/
def gapSeries : Frame ℚ (SeriesCell ℕ) :=
  [⟨0, fun | .track => some 0 | .value => some 1⟩,
    ⟨1 / 2, fun | .track => some 0 | .value => none⟩,
    ⟨2, fun | .track => some 0 | .value => some 1⟩,
    ⟨3, fun | .track => some 0 | .value => some 2⟩]

theorem gapSeries_residenciesAgree : ResidenciesAgree gapSeries .value := by
  refine residenciesAgree ?_ ?_
  · simp only [Sorted, gapSeries, List.pairwise_cons, List.forall_mem_cons]
    norm_num
  · simp only [CoversMissing, gapSeries, List.forall_mem_cons]
    refine ⟨?_, ?_, ?_, ?_, fun row hrow => absurd hrow List.not_mem_nil⟩
    all_goals
      intro other
      cases other <;> decide

end SchedAnalyzer
