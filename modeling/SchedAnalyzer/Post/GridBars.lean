import SchedAnalyzer.Post.Residency
import SchedAnalyzer.Post.Running

/-! # Residencies on the grid

The rows of a resampled table are 100us apart, so the time that a value is shown for is
a number of instants.
-/

namespace SchedAnalyzer

open Foundation.DataFrame Foundation.Lists

/-! ## Tables by label -/

section Labels

theorem gridWindow_nodup (bounds : Bounds) : (gridWindow bounds).Nodup := by
  apply List.Nodup.filter
  apply List.Nodup.map_on _ List.nodup_range
  intro first _ second _ heq
  omega

variable {Col : Type} {Cell : Col → Type}

/-- With distinct labels, a label has the cells of its row. -/
theorem cellAt_of_mem {df : Frame ℚ Cell} (hdistinct : (df.map Row.ts).Nodup) {row : Row ℚ Cell}
    (hrow : row ∈ df) (column : Col) : cellAt df column row.ts = row.cell column := by
  cases hfind : df.find? fun other => other.ts = row.ts with
  | none => exact absurd (decide_eq_true rfl) (List.find?_eq_none.mp hfind row hrow)
  | some other =>
      have hts : other.ts = row.ts := by simpa using List.find?_some hfind
      have hsame := List.inj_on_of_nodup_map hdistinct (List.mem_of_find?_eq_some hfind) hrow hts
      rw [cellAt, hfind, Option.bind_some, hsame]

end Labels

/-! ## The grid -/

section Grid

variable {bounds : Bounds}

/-- The instants of the window are 100us apart. -/
theorem gridWindow_isChain (bounds : Bounds) :
    (gridWindow bounds).IsChain fun ts next => next - ts = 100000 := by
  apply isChain_filter_of_convex
  · intro first between last hsub hfirst hlast
    have hsorted : [first, between, last].Pairwise (· ≤ ·) := by
      apply List.Pairwise.sublist hsub
      rw [grid, arange, List.pairwise_map]
      exact List.pairwise_le_range.imp fun {k other} hle => by omega
    have hinside := of_decide_eq_true hfirst
    have hinside' := of_decide_eq_true hlast
    simp only [List.pairwise_cons, List.forall_mem_cons] at hsorted
    exact decide_eq_true ⟨hinside.1.trans (bounds.seconds_le_seconds.mpr hsorted.1.1),
      (bounds.seconds_le_seconds.mpr hsorted.2.1.1).trans hinside'.2⟩
  · rw [grid, arange, List.isChain_map]
    apply List.isChain_iff_getElem.mpr
    intro k hk
    rw [List.getElem_range, List.getElem_range]
    push_cast
    ring

theorem seconds_isChain (bounds : Bounds) :
    ((gridWindow bounds).map bounds.seconds).IsChain fun time next => next - time = 1 / 10000 := by
  apply (List.isChain_map _).mpr
  apply (gridWindow_isChain bounds).imp
  intro ts next hstep
  have hnext : next = ts + 100000 := by omega
  rw [hnext, Bounds.seconds, Bounds.seconds]
  push_cast
  ring

end Grid

/-! ## Tables on the grid -/

section Tables

variable {Track : Type} {bounds : Bounds} {df : Frame ℚ (SeriesCell Track)}

/-- A table with a row for every instant, and a complete one among them, or with none. -/
structure GridTable (bounds : Bounds) (df : Frame ℚ (SeriesCell Track)) : Prop
    extends Resampled bounds df where
  complete : df ≠ [] → ∃ row ∈ df, row.IsComplete

/-- Samples without missing fields are resampled to such a table. -/
theorem convertTs_gridTable (bounds : Bounds) {samples : Frame ℤ (SeriesCell Track)}
    (hsorted : Sorted samples) (hcomplete : ∀ sample ∈ samples, sample.IsComplete) :
    GridTable bounds (convertTs bounds samples true) where
  toResampled := by
    apply convertTs_resampled bounds hsorted
    intro sample hsample hnone
    have hsome := hcomplete sample hsample .track
    rw [hnone] at hsome
    exact Bool.noConfusion hsome
  complete := by
    rw [convertTs_reindex bounds hsorted]
    intro hne
    split at hne
    next => exact absurd rfl hne
    next hkept =>
      rw [if_neg hkept]
      rw [List.isEmpty_iff, dropna_eq_nil_iff] at hkept
      push Not at hkept
      exact hkept

/-- A resampled table shows at an instant what the latest sample up to it has. -/
theorem cellAt_convertTs {Col : Type} [Fintype Col] [Nonempty Col] {Cell : Col → Type}
    {samples : Frame ℤ Cell} (hsorted : Sorted samples)
    (hcomplete : ∀ sample ∈ samples, sample.IsComplete) (column : Col) {ts : ℤ}
    (hts : ts ∈ gridWindow bounds) :
    cellAt (convertTs bounds samples true) column (bounds.seconds ts) =
      (firstOfLatest samples ts).bind fun sample => sample.cell column := by
  rw [convertTs_reindex bounds hsorted]
  split
  next hempty =>
    cases hfirst : firstOfLatest samples ts with
    | none => rfl
    | some first =>
        have hsees : SeesComplete bounds samples :=
          ⟨ts, hts, first, hfirst, hcomplete first (mem_of_firstOfLatest hfirst).1⟩
        exact absurd hsees ((dropna_sampled_isEmpty_iff bounds samples).mp hempty)
  next =>
    rw [cellAt, sampled, find?_map_instants (sampleAt_ts bounds samples) hts, Option.bind_some,
      sampleAt]
    cases firstOfLatest samples ts <;> rfl

theorem multiplyDfTidRunning_nil (bounds : Bounds) (df : Frame ℚ (SeriesCell Track)) :
    multiplyDfTidRunning bounds df [] = df := by
  cases df <;> rfl

namespace GridTable

variable (hdf : GridTable bounds df)
include hdf

/-- So is the table of the time that a task runs for. -/
theorem multiply (rows : Frame ℤ StateCell) :
    GridTable bounds (multiplyDfTidRunning bounds df rows) := by
  cases hlast : rows.getLast? with
  | none =>
      obtain rfl := List.getLast?_eq_none_iff.mp hlast
      rw [multiplyDfTidRunning_nil]
      exact hdf
  | some last =>
      by_cases hnil : df = []
      · subst hnil
        exact hdf
      · rw [multiplyDfTidRunning_eq bounds hnil hlast rfl]
        split
        next hempty =>
          rw [List.isEmpty_iff.mp hempty]
          exact ⟨⟨.inl rfl, fun _ hrow => absurd hrow List.not_mem_nil⟩, absurd rfl⟩
        next hkept =>
          refine ⟨⟨.inr ?_, ?_⟩, ?_⟩
          · rw [timesFactor, List.map_map]
            exact hdf.instants.resolve_left hnil
          · intro row hrow hnone
            obtain ⟨sample, hsample, rfl⟩ := List.mem_map.mp hrow
            have hvalue : sample.cell .value = none := hdf.track sample hsample hnone
            exact congrArg (mulCells · _) hvalue
          · rw [List.isEmpty_iff, dropna_eq_nil_iff] at hkept
            push Not at hkept
            exact fun _ => hkept

theorem labels (hne : df ≠ []) : df.map Row.ts = (gridWindow bounds).map bounds.seconds :=
  hdf.instants.resolve_left hne

theorem labels_nodup : (df.map Row.ts).Nodup := by
  rcases hdf.instants with rfl | hlabels
  · exact List.nodup_nil
  · exact hlabels ▸ ((gridWindow_nodup bounds).map bounds.seconds_injective)

/-- Only the track can be missing without the value. -/
theorem coversMissing : CoversMissing .value df := by
  intro row hrow column hnone
  cases column with
  | value => exact hnone
  | track => exact hdf.track row hrow hnone

/-- The values of the rows are those at the instants. -/
theorem exists_value_iff (value : ℚ) :
    (∃ row ∈ df, row.cell .value = some value) ↔
      ∃ ts ∈ gridWindow bounds, cellAt df .value (bounds.seconds ts) = some value := by
  have hcell := fun row (hrow : row ∈ df) => cellAt_of_mem hdf.labels_nodup hrow SeriesCol.value
  constructor
  · rintro ⟨row, hrow, hvalue⟩
    have hlabels := hdf.labels (List.ne_nil_of_mem hrow)
    obtain ⟨ts, hts, hlabel⟩ := List.mem_map.mp (hlabels ▸ List.mem_map_of_mem hrow)
    refine ⟨ts, hts, ?_⟩
    rw [hlabel, hcell row hrow, hvalue]
  · rintro ⟨ts, hts, hvalue⟩
    have hne : df ≠ [] := by
      rintro rfl
      cases hvalue
    obtain ⟨row, hrow, hlabel⟩ := List.mem_map.mp (hdf.labels hne ▸ List.mem_map_of_mem hts)
    exact ⟨row, hrow, by rw [← hcell row hrow, hlabel, hvalue]⟩

/-- A table that is not empty shows a value at some instant. -/
theorem ne_nil_iff : df ≠ [] ↔ ∃ ts ∈ gridWindow bounds, ∃ value,
    cellAt df .value (bounds.seconds ts) = some value := by
  constructor
  · intro hne
    obtain ⟨row, hrow, hcomplete⟩ := hdf.complete hne
    obtain ⟨value, hvalue⟩ := Option.isSome_iff_exists.mp (hcomplete .value)
    obtain ⟨ts, hts, hcell⟩ := (hdf.exists_value_iff value).mp ⟨row, hrow, hvalue⟩
    exact ⟨ts, hts, value, hcell⟩
  · rintro ⟨ts, -, value, hvalue⟩ rfl
    cases hvalue

/-- A condition on the values holds at as many instants as rows. -/
theorem countP_eq (hne : df ≠ []) (keep : Option ℚ → Bool) :
    df.countP (fun row => keep (row.cell .value)) =
      (gridWindow bounds).countP fun ts => keep (cellAt df .value (bounds.seconds ts)) := by
  have hcount : (df.map Row.ts).countP (fun label => keep (cellAt df .value label)) =
      (gridWindow bounds).countP fun ts => keep (cellAt df .value (bounds.seconds ts)) := by
    rw [hdf.labels hne, List.countP_map]
    rfl
  rw [← hcount, List.countP_map]
  apply List.countP_congr
  intro row hrow
  rw [Function.comp_apply, cellAt_of_mem hdf.labels_nodup hrow]

/-- It lasts for a tenth of a millisecond at each instant but the last. -/
theorem durationOf_eq (hne : df ≠ []) (keep : Option ℚ → Bool) :
    durationOf (fun row => keep (row.cell .value)) df =
      ((gridWindow bounds).dropLast.countP fun ts =>
        keep (cellAt df .value (bounds.seconds ts)) : ℕ) / 10000 := by
  have hlabels := hdf.labels hne
  have hsteps : df.IsChain fun row next => next.ts - row.ts = 1 / 10000 :=
    (List.isChain_map Row.ts).mp (hlabels ▸ seconds_isChain bounds)
  have hcount : df.dropLast.countP (fun row => keep (row.cell .value)) =
      (df.map Row.ts).dropLast.countP fun label => keep (cellAt df .value label) := by
    rw [← List.map_dropLast, List.countP_map]
    apply List.countP_congr
    intro row hrow
    rw [Function.comp_apply, cellAt_of_mem hdf.labels_nodup (List.dropLast_subset df hrow)]
  rw [durationOf_eq_countP hsteps, hcount, hlabels, ← List.map_dropLast, List.countP_map,
    nsmul_eq_mul, mul_one_div]
  rfl

end GridTable

end Tables

/-! ## The bars -/

section Bars

variable {Track : Type} (bounds : Bounds) (df : Frame ℚ (SeriesCell Track))

/-- At how many instants with a next one a value is shown. -/
def instantsAt (value : ℚ) : ℕ :=
  (gridWindow bounds).dropLast.countP fun ts =>
    cellAt df .value (bounds.seconds ts) = some value

/-- At how many any value is shown. -/
def instantsShown : ℕ :=
  (gridWindow bounds).dropLast.countP fun ts => (cellAt df .value (bounds.seconds ts)).isSome

/-- In milliseconds, or in per cent of the time that a value is shown for. -/
def instantsShare (abs : Bool) (value : ℚ) : ℚ :=
  if abs then instantsAt bounds df value / 10
  else 100 * (instantsAt bounds df value / instantsShown bounds df)

theorem instantsAt_le_instantsShown (value : ℚ) :
    instantsAt bounds df value ≤ instantsShown bounds df := by
  apply List.countP_mono_left
  intro ts _ hvalue
  rw [of_decide_eq_true hvalue]
  rfl

end Bars

/-- `df_duration.empty`. -/
def Residency.isEmpty {Col Key : Type} {Cell : Col → Type}
    (residency : Residency (Frame ℚ Cell) (List (Key × ℚ))) : Bool :=
  match residency with
  | .table df => df.isEmpty
  | .result groups => groups.isEmpty

/-- Only values of a table have a bar. -/
theorem exists_of_at_genDfDurationGroupby {Track : Type} {df : Frame ℚ (SeriesCell Track)}
    {abs : Bool} {value share : ℚ}
    (hat : (genDfDurationGroupby df .value abs).at value = some share) :
    ∃ row ∈ df, row.cell .value = some value := by
  have hsome := congrArg Option.isSome hat
  rw [genDfDurationGroupby] at hsome
  split at hsome
  next => exact Bool.noConfusion hsome
  next =>
    rw [Residency.at, Option.isSome_map] at hsome
    exact find?_map_groupbyDuration_isSome (fun time => time * 100 / totalDuration df abs) hsome

namespace GridTable

variable {Track : Type} {bounds : Bounds} {df : Frame ℚ (SeriesCell Track)}
  (hdf : GridTable bounds df)
include hdf

/-- There is a bar for each value that is shown, with its share. -/
theorem at_genDfDurationGroupby_iff (abs : Bool) (value share : ℚ) :
    (genDfDurationGroupby df .value abs).at value = some share ↔
      (∃ ts ∈ gridWindow bounds, cellAt df .value (bounds.seconds ts) = some value) ∧
        instantsShare bounds df abs value = share := by
  rw [← hdf.exists_value_iff value]
  have hshare : (∃ row ∈ df, row.cell .value = some value) →
      (genDfDurationGroupby df .value abs).at value =
        some (instantsShare bounds df abs value) := by
    rintro ⟨row, hrow, hvalue⟩
    have hne := List.ne_nil_of_mem hrow
    have htimeAt : timeAt .value value df = instantsAt bounds df value / 10000 := by
      rw [timeAt_eq]
      exact hdf.durationOf_eq hne fun cell => cell = some value
    have htimeOf : timeOf .value df = instantsShown bounds df / 10000 := by
      rw [timeOf_eq]
      exact hdf.durationOf_eq hne Option.isSome
    rw [at_genDfDurationGroupby hdf.coversMissing ⟨row, hrow, hvalue⟩, htimeAt, instantsShare]
    congr 1
    cases abs with
    | true =>
        simp only [totalDuration, if_true]
        ring
    | false =>
        rw [totalDuration_eq hdf.coversMissing, htimeOf, if_neg Bool.false_ne_true]
        by_cases hnone : instantsShown bounds df = 0
        · have hzero : instantsAt bounds df value = 0 :=
            Nat.le_zero.mp ((instantsAt_le_instantsShown bounds df value).trans_eq hnone)
          rw [hzero]
          simp
        · have hpositive : (instantsShown bounds df : ℚ) ≠ 0 := by exact_mod_cast hnone
          rw [if_neg (div_ne_zero hpositive (by norm_num))]
          field_simp
  constructor
  · intro hat
    have hvalue := exists_of_at_genDfDurationGroupby hat
    exact ⟨hvalue, Option.some.inj ((hshare hvalue).symm.trans hat)⟩
  · rintro ⟨hvalue, rfl⟩
    exact hshare hvalue

/-- The bars are left out if the plot is. -/
theorem isEmpty_genDfDurationGroupby (abs : Bool) :
    (genDfDurationGroupby df .value abs).isEmpty = true ↔ df = [] := by
  constructor
  · intro hempty
    by_contra hne
    obtain ⟨row, hrow, hcomplete⟩ := hdf.complete hne
    obtain ⟨value, hcell⟩ := Option.isSome_iff_exists.mp (hcomplete .value)
    have hkey : value ∈ groupKeys .value df := mem_groupKeys_iff.mpr ⟨row, hrow, hcell⟩
    rw [genDfDurationGroupby, if_neg (not_dropna_isEmpty hdf.coversMissing ⟨row, hrow, hcell⟩),
      Residency.isEmpty, List.isEmpty_iff, List.map_eq_nil_iff, groupbyDuration,
      List.map_eq_nil_iff] at hempty
    rw [hempty] at hkey
    exact absurd hkey List.not_mem_nil
  · rintro rfl
    rfl

end GridTable

end SchedAnalyzer
